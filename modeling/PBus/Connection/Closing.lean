import PBus.Connection.Incoming
import PBus.Connection.Reentrancy
import Mathlib.Data.List.Perm.Subperm

/-! A connection and the peers of its sockets: the peer of a socket writes whole frames and
closes its end, and the poll reports whatever it reports. What has been handed over by the
time the connection gives the socket up depends on what was unread then. -/
namespace PBus.Connection
open Transition
variable {β : Type} [Cell β]

structure Flags where
  input : Bool := false
  output : Bool := false
  hangup : Bool := false
  error : Bool := false
  deriving DecidableEq, Repr

/-- `HandleSocketEvent` gives the socket up. -/
def Flags.givesUp (flags : Flags) : Bool := flags.hangup || flags.error

/-- `unread s` is what the peer of socket `s` wrote and the connection has not read. -/
structure Peered (β : Type) [Cell β] where
  e : Endpoint β
  unread : SocketId → List β := fun _ => []
  closed : SocketId → Bool := fun _ => false

namespace Peered

inductive Label (β : Type) [Cell β] where
  /-- The peer wrote whole frames. -/
  | wrote (socket : SocketId) (us : List (List β))
  | closed (socket : SocketId)
  /-- `HandleSocketEvent` was called, and took these steps. -/
  | event (socket : SocketId) (flags : Flags) (steps : List (Connection.Label β))
  /-- A `Send` on this side, or a handler that returned. -/
  | own (l : Connection.Label β)

/-- The branch of `HandleSocketEvent` for `EventOutput`. -/
def output (e : Endpoint β) (socket : SocketId) (flags : Flags) (n : Nat) :
    Endpoint β × List (Connection.Label β) :=
  if flags.output then ((e.output n).2, [.wrote socket (e.output n).1]) else (e, [])

/-- The branch for `EventInput`. Reading nothing throws. -/
def input (e : Endpoint β) (socket : SocketId) (flags : Flags) (bytes : List β) :
    Endpoint β × List (Connection.Label β) :=
  if flags.input ∧ bytes ≠ [] then
    ((e.loop socket bytes).1, [.read socket (!e.stack.isEmpty) bytes (e.loop socket bytes).2])
  else (e, [])

/-- `HandleSocketEvent`. The socket takes at most `n` bytes, and a read brings at most `k`. -/
def handleSocketEvent (e : Endpoint β) (socket : SocketId) (flags : Flags) (n k : Nat)
    (unread : List β) : Endpoint β × List (Connection.Label β) :=
  if flags.givesUp then (e.hangup, [.hungUp])
  else
    let (e, wrote) := output e socket flags n
    let (e, read) := input e socket flags (unread.take (min k readBufferSize))
    (e, wrote ++ read)

inductive Event (β : Type) where
  | write (us : List (List β))
  | close
  | poll (flags : Flags) (n k : Nat)
  | send (data : List β) (connects : Bool)
  | returned

/-- The step an event leads to, if it can happen. A peer does not write after closing. -/
def perform (w : Peered β) : Event β → Option (Label β × Peered β)
  | .write us =>
    match w.e.conn.socket with
    | some s =>
      if w.closed s = false ∧ ∀ u ∈ us, Delimited.Whole (frames β) u then
        some (.wrote s us, { w with
          unread := Function.update w.unread s (w.unread s ++ us.flatten) })
      else none
    | none => none
  | .close =>
    match w.e.conn.socket with
    | some s => some (.closed s, { w with closed := Function.update w.closed s true })
    | none => none
  | .poll flags n k =>
    match w.e.conn.socket with
    | some s =>
      if w.e.conn.interest.isSome then
        let (e, steps) := handleSocketEvent w.e s flags n k (w.unread s)
        some (.event s flags steps, { w with
          e, unread := Function.update w.unread s ((w.unread s).drop (bytesRead steps).length) })
      else none
    | none => none
  | .send data connects =>
    (w.e.perform (.send data connects)).map fun (l, e) => (.own l, { w with e })
  | .returned => (w.e.perform .returned).map fun (l, e) => (.own l, { w with e })

def Step (w : Peered β) (l : Label β) (w' : Peered β) : Prop :=
  ∃ event, w.perform event = some (l, w')

def Label.steps : Label β → List (Connection.Label β)
  | .event _ _ steps => steps
  | .own l => [l]
  | _ => []

def Label.writtenBy (socket : SocketId) : Label β → List (List β)
  | .wrote s us => if s = socket then us else []
  | _ => []

def steps (hist : List (Label β)) : List (Connection.Label β) := hist.flatMap Label.steps

def writtenBy (socket : SocketId) (hist : List (Label β)) : List (List β) :=
  hist.flatMap (Label.writtenBy socket)

def AllHanded (socket : SocketId) (hist : List (Label β)) : Prop :=
  (writtenBy socket hist).Subperm (framesOn socket (steps hist))

/-- The frames the peer of a socket wrote had been handed over whenever the connection gave
the socket up. -/
def NoneLost (hist : List (Label β)) : Prop :=
  ∀ before socket flags steps, before ++ [.event socket flags steps] <+: hist →
    flags.givesUp = true → AllHanded socket before

def Label.Unnested (l : Label β) : Prop := ∀ m ∈ l.steps, m.nestedInput = false

/-- A socket is given up with nothing unread, neither on the socket nor of a buffer that was
read from it. -/
def Drained (w : Peered β) : Label β → Prop
  | .event socket flags _ => flags.givesUp = true →
      w.unread socket = [] ∧ ∀ a ∈ w.e.stack, a.socket = socket → a.rest = []
  | _ => True

/-- A few steps on one socket: none gives it up, and what they read was unread before. -/
structure Handles (socket : SocketId) (unread : List β) (e : Endpoint β)
    (steps : List (Connection.Label β)) (e' : Endpoint β) : Prop where
  moves : Reaches Endpoint.Step e steps e'
  stays : ∀ m ∈ steps, m ≠ .hungUp
  reads : ∀ s, bytesOn s steps = if socket = s then bytesRead steps else []
  taken : bytesRead steps <+: unread

theorem Handles.none (socket : SocketId) (unread : List β) (e : Endpoint β) :
    Handles socket unread e [] e :=
  ⟨.refl e, by simp, by simp [bytesOn, bytesRead], List.nil_prefix⟩

theorem Handles.append {socket : SocketId} {unread : List β} {e₁ e₂ e₃ : Endpoint β}
    {ls ms : List (Connection.Label β)} (first : Handles socket [] e₁ ls e₂)
    (second : Handles socket unread e₂ ms e₃) : Handles socket unread e₁ (ls ++ ms) e₃ := by
  have silent : bytesRead ls = [] := List.prefix_nil.mp first.taken
  have joined : bytesRead (ls ++ ms) = bytesRead ms := by
    simp only [bytesRead, List.flatMap_append]
    rw [← bytesRead, silent, List.nil_append]
  constructor
  case moves => exact first.moves.trans second.moves
  case stays => exact fun m hm => (List.mem_append.mp hm).elim (first.stays m) (second.stays m)
  case reads =>
    intro s'
    rw [joined, ← second.reads s', bytesOn, List.flatMap_append, ← bytesOn, ← bytesOn,
      first.reads s', silent]
    simp
  case taken =>
    rw [joined]
    exact second.taken

theorem output_handles {e : Endpoint β} (up : e.conn.socket = some s)
    (registered : e.conn.interest.isSome) (flags : Flags) (n : Nat) :
    Handles s [] e (output e s flags n).2 (output e s flags n).1 := by
  unfold output
  split
  · constructor
    case moves => exact .single (.wrote up registered rfl)
    case stays => simp
    case reads => simp [bytesOn, bytesRead, Label.receivedOn, Label.received]
    case taken => simp [bytesRead, Label.received]
  · exact .none s [] e

theorem output_registered (e : Endpoint β) (s : SocketId) (flags : Flags) (n : Nat) :
    (output e s flags n).1.conn.socket = e.conn.socket ∧
      (output e s flags n).1.conn.interest.isSome = e.conn.interest.isSome := by
  unfold output
  split
  · simp only [Endpoint.output_eq, LocalBusConnection.output_eq, true_and]
    split <;> simp
  · exact ⟨rfl, rfl⟩

theorem input_handles {e : Endpoint β} (up : e.conn.socket = some s)
    (registered : e.conn.interest.isSome) (flags : Flags) (unread : List β) (k : Nat) :
    Handles s unread e (input e s flags (unread.take (min k readBufferSize))).2
      (input e s flags (unread.take (min k readBufferSize))).1 := by
  unfold input
  split
  · rename_i given
    have small : (unread.take (min k readBufferSize)).length ≤ readBufferSize := by
      simp only [List.length_take]
      omega
    constructor
    case moves => exact .single (.read up registered given.2 small rfl)
    case stays => simp
    case reads => simp [bytesOn, bytesRead, Label.receivedOn, Label.received]
    case taken =>
      simp only [bytesRead, Label.received, List.flatMap_cons, List.flatMap_nil, List.append_nil]
      exact List.take_prefix _ _
  · exact .none s unread e

theorem handleSocketEvent_handles {e : Endpoint β} (up : e.conn.socket = some s)
    (registered : e.conn.interest.isSome) {flags : Flags} (stays : flags.givesUp = false)
    (n k : Nat) (unread : List β) :
    Handles s unread e (handleSocketEvent e s flags n k unread).2
      (handleSocketEvent e s flags n k unread).1 := by
  obtain ⟨same, still⟩ := output_registered e s flags n
  simp only [handleSocketEvent, stays, Bool.false_eq_true, if_false]
  exact (output_handles up registered flags n).append
    (input_handles (same.trans up) (still.trans registered) flags unread k)

/-- All a step can do. -/
inductive Does (w : Peered β) : Label β → Peered β → Prop where
  | wrote {s : SocketId} {us : List (List β)} : (∀ u ∈ us, Delimited.Whole (frames β) u) →
      Does w (.wrote s us) { w with
        unread := Function.update w.unread s (w.unread s ++ us.flatten) }
  | closed (s : SocketId) : Does w (.closed s) { w with
      closed := Function.update w.closed s true }
  | gaveUp {s : SocketId} {flags : Flags} : w.e.conn.socket = some s → w.e.conn.interest.isSome →
      flags.givesUp = true → Does w (.event s flags [.hungUp]) { w with e := w.e.hangup }
  | event {s : SocketId} {flags : Flags} {steps : List (Connection.Label β)} {e : Endpoint β} :
      flags.givesUp = false → Handles s (w.unread s) w.e steps e →
      Does w (.event s flags steps) { w with
        e, unread := Function.update w.unread s ((w.unread s).drop (bytesRead steps).length) }
  | own {l : Connection.Label β} {e : Endpoint β} : Endpoint.Step w.e l e → l ≠ .hungUp →
      l.received = [] → Does w (.own l) { w with e }

theorem Step.does {w w' : Peered β} {l : Label β} (step : Step w l w') : Does w l w' := by
  obtain ⟨event, performed⟩ := step
  cases event with
  | write us =>
    cases up : w.e.conn.socket with
    | none => simp [perform, up] at performed
    | some s =>
      simp only [perform, up, possible_iff] at performed
      obtain ⟨⟨-, whole⟩, rfl, rfl⟩ := performed
      exact .wrote whole
  | close =>
    cases up : w.e.conn.socket with
    | none => simp [perform, up] at performed
    | some s =>
      simp only [perform, up, Option.some.injEq, Prod.mk.injEq] at performed
      obtain ⟨rfl, rfl⟩ := performed
      exact .closed s
  | poll flags n k =>
    cases up : w.e.conn.socket with
    | none => simp [perform, up] at performed
    | some s =>
      simp only [perform, up, possible_iff] at performed
      obtain ⟨registered, rfl, rfl⟩ := performed
      cases givesUp : flags.givesUp with
      | true =>
        simp only [handleSocketEvent, givesUp, if_true, bytesRead, Label.received,
          List.flatMap_cons, List.flatMap_nil, List.append_nil, List.length_nil, List.drop_zero,
          Function.update_eq_self]
        exact .gaveUp up registered givesUp
      | false =>
        exact .event givesUp (handleSocketEvent_handles up registered givesUp n k _)
  | send data connects =>
    cases sent : w.e.send data connects with
    | mk e serial =>
      cases serial <;>
        simp only [perform, Endpoint.perform, sent, Option.map_some, Option.some.injEq,
          Prod.mk.injEq] at performed <;>
        obtain ⟨rfl, rfl⟩ := performed
      · exact .own (.refused sent) (by simp) rfl
      · exact .own (.sent sent) (by simp) rfl
  | returned =>
    simp only [perform, Endpoint.perform, Option.map_eq_some_iff, Prod.mk.injEq] at performed
    obtain ⟨⟨l, e⟩, ⟨⟨e', dispatch⟩, done, rfl, rfl⟩, rfl, rfl⟩ := performed
    exact .own (.handled done) (by simp) rfl

/-- Nothing is half read, and nothing is left of a buffer. -/
def Emptied (e : Endpoint β) : Prop :=
  (e.stack = [] → e.conn.readTask.pending = []) ∧ ∀ a ∈ e.stack, a.rest = []

/-- As long as nothing has been read from the socket the connection is on, nothing is left of
the sockets before. -/
structure Settled (start : Endpoint β) (hist : List (Connection.Label β)) (e : Endpoint β) :
    Prop where
  run : Guarded Endpoint.Step Incoming.Clean start hist e
  fresh : (∀ s, e.conn.socket = some s → bytesOn s hist = []) → Emptied e

theorem socket_kept {e e' : Endpoint β} {m : Connection.Label β} (step : Endpoint.Step e m e')
    (stays : m ≠ .hungUp) (up : e.conn.socket = some s) : e'.conn.socket = some s := by
  cases step.writes with
  | sent opens | refused opens =>
    rcases opens with same | ⟨down, -⟩
    · exact same.symm.trans up
    · rw [up] at down
      contradiction
  | wrote n => simpa [LocalBusConnection.output_eq] using up
  | hungUp => contradiction
  | reading => exact up

theorem handled_emptied {e e' : Endpoint β} {bytes : List β} {dispatch : Option (Dispatch β)}
    (decoding : Decoding us bytes e) (emptied : Emptied e)
    (done : e.handled = some (e', dispatch)) : Emptied e' := by
  cases stack : e.stack with
  | nil => simp [Endpoint.handled, stack] at done
  | cons top below =>
    obtain ⟨rfl, -⟩ := decoding.busy top below stack
    have rest : top.rest = [] := emptied.2 top (by simp [stack])
    simp only [Endpoint.handled, stack, rest, Endpoint.loop, LocalBusConnection.scan_nil,
      Option.some.injEq, Prod.mk.injEq] at done
    obtain ⟨rfl, -⟩ := done
    exact ⟨fun _ => rfl, by simp⟩

theorem Settled.step {start e e' : Endpoint β} {hist : List (Connection.Label β)}
    {m : Connection.Label β} (started : Endpoint.Started start) (settled : Settled start hist e)
    (step : Endpoint.Step e m e') (unnested : m.nestedInput = false)
    (drained : m = .hungUp → Emptied e) : Settled start (hist ++ [m]) e' := by
  have quiet (stays : m ≠ .hungUp) (silent : ∀ s, m.receivedOn s = [])
      (fresh : ∀ s, e'.conn.socket = some s → bytesOn s (hist ++ [m]) = []) : Emptied e := by
    refine settled.fresh fun s up => ?_
    simpa [Incoming.bytesOn_append, silent] using fresh s (socket_kept step stays up)
  have same (task : e'.conn.readTask = e.conn.readTask) (stack : e'.stack = e.stack)
      (emptied : Emptied e) : Emptied e' := by
    rw [Emptied, task, stack]
    exact emptied
  cases step with
  | sent done | refused done =>
    refine ⟨settled.run.next (by first | exact .sent done | exact .refused done) trivial, ?_⟩
    intro fresh
    obtain ⟨_, _, ⟨_, _, rfl⟩ | ⟨_, rfl⟩⟩ := Endpoint.send_cases done <;>
      exact same rfl rfl (quiet (by simp) (fun _ => rfl) fresh)
  | wrote up registered done =>
    refine ⟨settled.run.next (.wrote up registered done) trivial, fun fresh => ?_⟩
    rw [Endpoint.output_eq, Prod.mk.injEq] at done
    obtain ⟨-, rfl⟩ := done
    exact same (by simp [LocalBusConnection.output_eq]) rfl
      (quiet (by simp) (fun _ => rfl) fresh)
  | hungUp registered =>
    exact ⟨settled.run.next (.hungUp registered) trivial,
      fun _ => same rfl rfl (drained rfl)⟩
  | read up registered given small done =>
    refine ⟨settled.run.next (.read up registered given small done) ⟨unnested, fun silent => ?_⟩,
      fun fresh => ?_⟩
    · have emptied := settled.fresh fun s up' => by
        obtain rfl := Option.some.inj (up.symm.trans up')
        exact List.isEmpty_iff.mp silent
      have idle : e.stack = [] := by simpa [Label.nestedInput] using unnested
      exact List.isEmpty_iff.mpr (emptied.1 idle)
    · have bytes := fresh _ (socket_kept (.read up registered given small done) (by simp) up)
      simp [Incoming.bytesOn_append, Label.receivedOn, given] at bytes
  | handled done =>
    refine ⟨settled.run.next (.handled done) trivial, fun fresh => ?_⟩
    obtain ⟨cur, us, inv⟩ := Incoming.invariant_run started settled.run
    exact handled_emptied inv.decoding (quiet (by simp) (fun _ => rfl) fresh) done

theorem Settled.moves {start e e' : Endpoint β} {hist ms : List (Connection.Label β)}
    (started : Endpoint.Started start) (settled : Settled start hist e)
    (moves : Reaches Endpoint.Step e ms e') (unnested : ∀ m ∈ ms, m.nestedInput = false)
    (stays : ∀ m ∈ ms, m ≠ .hungUp) : Settled start (hist ++ ms) e' := by
  induction moves generalizing hist with
  | refl => simpa using settled
  | next head tail ih =>
    rw [List.forall_mem_cons] at unnested stays
    have onward := settled.step started head unnested.1 fun gone => absurd gone stays.1
    simpa using ih onward unnested.2 stays.2

/-- What a peer wrote are whole frames, and they have been read or are still unread. -/
structure Invariant (start : Endpoint β) (hist : List (Label β)) (w : Peered β) : Prop where
  settled : Settled start (steps hist) w.e
  account : ∀ s, (writtenBy s hist).flatten = bytesOn s (steps hist) ++ w.unread s
  whole : ∀ s, ∀ u ∈ writtenBy s hist, Delimited.Whole (frames β) u

/-- Of the socket of the last input, `us` have been handed over; from another one the
connection is on, nothing has been read. -/
theorem Invariant.handed {start : Endpoint β} (started : Endpoint.Started start)
    {hist : List (Label β)} {w : Peered β} (inv : Invariant start hist w)
    (up : w.e.conn.socket = some s) :
    (∃ us, Decoding us (bytesOn s (steps hist)) w.e ∧ framesOn s (steps hist) = us ∧
      ∀ a ∈ w.e.stack, a.socket = s) ∨
    bytesOn s (steps hist) = [] ∧ framesOn s (steps hist) = [] ∧
      ∀ a ∈ w.e.stack, a.socket ≠ s := by
  obtain ⟨cur, us, incoming⟩ := Incoming.invariant_run started inv.settled.run
  by_cases last : s = cur
  · subst last
    obtain ⟨n, -, handed, -⟩ := incoming.handed
    exact .inl ⟨us, incoming.decoding, by rw [framesOn, handed, numberedFrom_frames],
      incoming.suspended⟩
  · have silent := incoming.unread s up last
    obtain ⟨n, -, handed⟩ := incoming.others s last
    refine .inr ⟨silent, ?_, fun a ha same => last (same.symm.trans (incoming.suspended a ha))⟩
    rw [framesOn, handed, numberedFrom_frames, silent,
      Delimited.parse_unfinished Delimited.partial_nil]

theorem Invariant.allHanded_iff {start : Endpoint β} (started : Endpoint.Started start)
    {hist : List (Label β)} {w : Peered β} (inv : Invariant start hist w)
    (up : w.e.conn.socket = some s) :
    AllHanded s hist ↔ w.unread s = [] ∧ ∀ a ∈ w.e.stack, a.socket = s → a.rest = [] := by
  have account := inv.account s
  have written : (Delimited.parse (frames β) (bytesOn s (steps hist) ++ w.unread s)).1 =
      writtenBy s hist := by
    rw [← account, Delimited.parse_flatten (inv.whole s)]
  rw [AllHanded]
  rcases inv.handed started up with ⟨us, decoding, rfl, sockets⟩ | ⟨silent, none, others⟩
  · generalize framesOn s (steps hist) = us at decoding ⊢
    constructor
    · intro all
      have first : us <+: writtenBy s hist := by
        rw [← written]
        exact decoding.parse_eq.1.trans (Delimited.parse_initial _ _ _)
      rw [← first.eq_of_length_le all.length_le] at account
      cases stack : w.e.stack with
      | nil =>
        obtain ⟨-, bytes⟩ := decoding.idle stack
        rw [bytes, List.append_assoc, List.self_eq_append_right, List.append_eq_nil_iff] at account
        exact ⟨account.2, by simp⟩
      | cons a below =>
        obtain ⟨rfl, -, -, bytes⟩ := decoding.busy a below stack
        rw [bytes, List.append_assoc, List.self_eq_append_right, List.append_eq_nil_iff] at account
        exact ⟨account.2, by simp [account.1]⟩
    · rintro ⟨read, rests⟩
      rw [← written, read, List.append_nil]
      cases stack : w.e.stack with
      | nil => rw [decoding.parse_eq.2 stack]
      | cons a below =>
        obtain ⟨-, -, -, bytes⟩ := decoding.busy a below stack
        have top : a ∈ w.e.stack := by simp [stack]
        rw [bytes, rests a top (sockets a top), List.append_nil,
          Delimited.parse_flatten decoding.whole]
  · rw [none, List.subperm_nil]
    constructor
    · intro all
      rw [all, silent] at account
      exact ⟨account.symm, fun a ha same => absurd same (others a ha)⟩
    · rintro ⟨read, -⟩
      rw [← written, silent, read, List.append_nil,
        Delimited.parse_unfinished Delimited.partial_nil]

theorem Invariant.emptied {start : Endpoint β} (started : Endpoint.Started start)
    {hist : List (Label β)} {w : Peered β} (inv : Invariant start hist w)
    (up : w.e.conn.socket = some s) (read : w.unread s = [])
    (rests : ∀ a ∈ w.e.stack, a.socket = s → a.rest = []) : Emptied w.e := by
  rcases inv.handed started up with ⟨us, decoding, -, sockets⟩ | ⟨silent, -, -⟩
  · refine ⟨fun idle => ?_, fun a ha => rests a ha (sockets a ha)⟩
    obtain ⟨unfinished, bytes⟩ := decoding.idle idle
    have parsed := Delimited.parse_flatten (inv.whole s)
    rw [inv.account s, read, List.append_nil, bytes,
      Delimited.parse_eq decoding.whole (ReadTask.pending_unfinished _ unfinished)] at parsed
    exact (Prod.mk.inj parsed).2
  · refine inv.settled.fresh fun s' up' => ?_
    obtain rfl := Option.some.inj (up.symm.trans up')
    exact silent

theorem Invariant.onward {start : Endpoint β} {past : List (Label β)} {w w' : Peered β}
    {l : Label β} (inv : Invariant start past w)
    (settled : Settled start (steps past ++ l.steps) w'.e)
    (account : ∀ s, w.unread s ++ (l.writtenBy s).flatten = bytesOn s l.steps ++ w'.unread s)
    (whole : ∀ s, ∀ u ∈ l.writtenBy s, Delimited.Whole (frames β) u) :
    Invariant start (past ++ [l]) w' := by
  have all : steps (past ++ [l]) = steps past ++ l.steps := by simp [steps]
  have written (s : SocketId) : writtenBy s (past ++ [l]) = writtenBy s past ++ l.writtenBy s := by
    simp [writtenBy]
  constructor
  case settled =>
    rw [all]
    exact settled
  case account =>
    intro s
    have joined : bytesOn s (steps past ++ l.steps) =
        bytesOn s (steps past) ++ bytesOn s l.steps := by simp [bytesOn]
    rw [written, List.flatten_append, inv.account, all, joined, List.append_assoc,
      List.append_assoc, account]
  case whole =>
    intro s u hu
    rw [written] at hu
    exact (List.mem_append.mp hu).elim (inv.whole s u) (whole s u)

theorem Invariant.step {start : Endpoint β} (started : Endpoint.Started start)
    {past : List (Label β)} {w w' : Peered β} {l : Label β} (inv : Invariant start past w)
    (step : Step w l w') (unnested : l.Unnested) (drained : Drained w l) :
    Invariant start (past ++ [l]) w' := by
  cases step.does with
  | @wrote s us whole =>
    apply inv.onward
    case settled => simpa [Label.steps] using inv.settled
    case account =>
      intro t
      by_cases here : s = t
      · subst here
        simp [Label.writtenBy, Label.steps, bytesOn]
      · simp [Label.writtenBy, Label.steps, bytesOn, here, Function.update_of_ne (Ne.symm here)]
    case whole =>
      intro t u hu
      simp only [Label.writtenBy] at hu
      split at hu
      · exact whole u hu
      · cases hu
  | closed s =>
    apply inv.onward
    case settled => simpa [Label.steps] using inv.settled
    case account => simp [Label.writtenBy, Label.steps, bytesOn]
    case whole => exact fun _ _ hu => absurd hu List.not_mem_nil
  | gaveUp up registered givesUp =>
    obtain ⟨read, rests⟩ := drained givesUp
    apply inv.onward
    case settled =>
      exact inv.settled.step started (.hungUp registered) rfl fun _ =>
        inv.emptied started up read rests
    case account => simp [Label.writtenBy, Label.steps, bytesOn, Label.receivedOn]
    case whole => exact fun _ _ hu => absurd hu List.not_mem_nil
  | @event s flags ms e stays handles =>
    apply inv.onward
    case settled => exact inv.settled.moves started handles.moves unnested handles.stays
    case account =>
      intro t
      have unread := List.prefix_iff_eq_append.mp handles.taken
      simp only [Label.writtenBy, Label.steps, List.flatten_nil, List.append_nil, handles.reads]
      by_cases here : s = t
      · subst here
        rw [if_pos rfl, Function.update_self, unread]
      · rw [if_neg here, Function.update_of_ne (Ne.symm here), List.nil_append]
    case whole => exact fun _ _ hu => absurd hu List.not_mem_nil
  | @own m e moved stays silent =>
    apply inv.onward
    case settled =>
      exact inv.settled.step started moved (unnested m (by simp [Label.steps]))
        fun gone => absurd gone stays
    case account =>
      intro t
      have unread : m.receivedOn t = [] := by
        cases m <;> simp_all [Label.receivedOn, Label.received]
      simp [Label.writtenBy, Label.steps, bytesOn, unread]
    case whole => exact fun _ _ hu => absurd hu List.not_mem_nil

theorem invariant_start {start : Endpoint β} (started : Endpoint.Started start) :
    Invariant start [] { e := start } := by
  constructor
  case settled =>
    refine ⟨.start, fun _ => ?_⟩
    cases started <;> exact ⟨fun _ => rfl, by simp⟩
  case account => exact fun _ => rfl
  case whole => exact fun _ _ hu => absurd hu List.not_mem_nil

theorem invariant_run {start : Endpoint β} (started : Endpoint.Started start)
    {hist : List (Label β)} {w : Peered β}
    (run : Guarded Step (fun _ w l => l.Unnested ∧ Drained w l) { e := start } hist w) :
    Invariant start hist w := by
  refine run.history ?_ (invariant_start started)
  intro past w l w' inv step met
  exact inv.step started step met.1 met.2

theorem Step.givesUp {w w' : Peered β} {s : SocketId} {flags : Flags}
    {ms : List (Connection.Label β)} (step : Step w (.event s flags ms) w')
    (givesUp : flags.givesUp = true) : w.e.conn.socket = some s := by
  cases step.does with
  | gaveUp up => exact up
  | event stays =>
    rw [givesUp] at stays
    contradiction

end Peered
open Peered

/-- Every run without nested input: no frame that a peer wrote is lost when the connection
gives its socket up, exactly if nothing is unread whenever it does. -/
theorem none_lost_iff {start : Endpoint β} (started : Endpoint.Started start)
    {hist : List (Peered.Label β)} {w : Peered β}
    (run : Guarded Step (fun _ _ l => l.Unnested) { e := start } hist w) :
    NoneLost hist ↔
      Guarded Step (fun _ w l => l.Unnested ∧ Drained w l) { e := start } hist w := by
  constructor
  · intro kept
    induction run with
    | start => exact .start
    | @next past t l u _ step met ih =>
      have before := ih fun before s flags ms here =>
        kept before s flags ms (here.trans (List.prefix_append _ _))
      refine before.next step ⟨met, ?_⟩
      cases l with
      | event s flags ms =>
        intro givesUp
        exact ((invariant_run started before).allHanded_iff started (step.givesUp givesUp)).mp
          (kept past s flags ms (List.prefix_refl _) givesUp)
      | wrote | closed | own => trivial
  · intro drained before s flags ms here givesUp
    obtain ⟨u, v, past, step, -, empty⟩ := drained.at_label here
    exact ((invariant_run started past).allHanded_iff started (step.givesUp givesUp)).mpr
      (empty givesUp)

instance (l : Peered.Label β) : Decidable l.Unnested :=
  inferInstanceAs (Decidable (∀ m ∈ l.steps, m.nestedInput = false))

instance (w : Peered UInt8) (l : Peered.Label UInt8) : Decidable (Drained w l) :=
  match l with
  | .event socket flags _ => inferInstanceAs (Decidable (flags.givesUp = true →
      w.unread socket = [] ∧ ∀ a ∈ w.e.stack, a.socket = socket → a.rest = []))
  | .wrote _ _ | .closed _ | .own _ => inferInstanceAs (Decidable True)

theorem Peered.played (C : List (Peered.Label β) → Peered β → Peered.Label β → Prop)
    [∀ past w l, Decidable (C past w l)] (start : Peered β) (events : List (Peered.Event β)) :
    Guarded Step C start (play perform C [] start events).1 (play perform C [] start events).2 :=
  play_guarded perform C (fun {_ event _ _} performed => ⟨event, performed⟩) .start events

/-- The peer writes a frame and closes, the frame is read in two pieces, and only then the
poll reports that the peer has hung up. -/
theorem none_lost_read :
    ∃ (hist : List (Peered.Label UInt8)) (w : Peered UInt8),
      Reaches Step { e := accepted } hist w ∧ w.e.conn.socket = none ∧
      framesOn 0 (steps hist) = [[1, 0, 0, 0, 65]] ∧ NoneLost hist := by
  have run := Peered.played (β := UInt8) (fun _ w l => l.Unnested ∧ Drained w l)
    { e := accepted } [.write [[1, 0, 0, 0, 65]], .close, .poll { input := true } 0 3,
      .poll { input := true } 0 9, .returned, .poll { input := true, hangup := true } 0 9]
  exact ⟨_, _, run.reaches, by decide +kernel, by decide +kernel,
    (none_lost_iff (.accepted _ 0) (run.mono And.left)).mpr run⟩

/-- The poll reports the hang-up together with the last frame, and the frame is not read. -/
theorem last_frame_lost :
    ∃ (hist : List (Peered.Label UInt8)) (w : Peered UInt8),
      Guarded Step (fun _ _ l => l.Unnested) { e := accepted } hist w ∧
      writtenBy 0 hist = [[1, 0, 0, 0, 65]] ∧ w.e.conn.socket = none ∧
      framesOn 0 (steps hist) = [] ∧ ¬ NoneLost hist := by
  have run : Guarded (Step (β := UInt8)) (fun _ _ l => l.Unnested) { e := accepted } _ _ :=
    ((Guarded.start.next ⟨.write [[1, 0, 0, 0, 65]], rfl⟩ (by decide)).next
      ⟨.close, rfl⟩ (by decide)).next
      ⟨.poll { input := true, hangup := true } 0 9, rfl⟩ (by decide)
  refine ⟨_, _, run, rfl, rfl, rfl, fun kept => ?_⟩
  have all := kept _ _ _ _ (List.prefix_refl _) rfl
  exact absurd all.length_le (by decide)

end PBus.Connection
