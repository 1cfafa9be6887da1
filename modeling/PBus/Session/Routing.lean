import PBus.Session.Connections
import PBus.Session.Messages

/-! Where the answer to an invoke goes. `OnIncomingInvoke` knows the caller by its identifier
only and looks the connection up again when the method has run; in between, the poll may have
accepted another process under the identifier or lost the caller. -/
namespace PBus
open Transition Connection
variable {β : Type} [Cell β] {Process : Type}

theorem Connection.Endpoint.Step.activations {e e' : Endpoint β} {l : Connection.Label β}
    (step : Endpoint.Step e l e') {a : Activation β} (suspended : a ∈ e'.stack) :
    (∃ b ∈ e.stack, b.socket = a.socket) ∨ e.conn.socket = some a.socket := by
  rcases step.reads with ⟨-, -, -, -, -, same⟩ | ⟨socket, bytes, dispatch, -, up, -, read⟩ |
    ⟨dispatch, -, returned⟩
  · exact .inl ⟨a, same ▸ suspended, rfl⟩
  · obtain ⟨task, serial, stack, eq, calls⟩ := e.loop_frame socket bytes
    rw [read] at eq
    obtain rfl : e' = _ := eq
    rcases calls with rfl | ⟨rest, rfl⟩
    · exact .inl ⟨a, suspended, rfl⟩
    · rcases List.mem_cons.mp suspended with rfl | suspended
      · exact .inr up
      · exact .inl ⟨a, suspended, rfl⟩
  · obtain ⟨top, below, task, serial, stack, before, rfl, calls⟩ := Endpoint.handled_frame returned
    rcases calls with rfl | ⟨rest, rfl⟩
    · exact .inl ⟨a, before ▸ List.mem_cons_of_mem _ suspended, rfl⟩
    · rcases List.mem_cons.mp suspended with rfl | suspended
      · exact .inl ⟨top, before ▸ List.mem_cons_self, rfl⟩
      · exact .inl ⟨a, before ▸ List.mem_cons_of_mem _ suspended, rfl⟩

theorem Connection.Endpoint.Step.serviceId {e e' : Endpoint β} {l : Connection.Label β}
    (step : Endpoint.Step e l e') : e'.conn.serviceId = e.conn.serviceId := by
  cases step.writes <;> simp [Endpoint.hangup, LocalBusConnection.hangup,
    LocalBusConnection.output_eq]

namespace Connections

/-- An answer is queued on the connection its invoke came in on, and written to the process
the invoke came from. -/
def Routed (proc : Handle → SocketId → Process) : Label β → Prop
  | .called h (some origin) (.sent _ _) => h = origin.handle
  | .event h (some origin) (.wrote socket _) =>
      h = origin.handle ∧ proc h socket = proc origin.handle origin.socket
  | _ => True

instance [DecidableEq Process] (proc : Handle → SocketId → Process) (l : Label β) :
    Decidable (Routed proc l) :=
  match l with
  | .called _ (some _) (.sent _ _) => inferInstanceAs (Decidable (_ = _))
  | .event _ (some _) (.wrote _ _) => inferInstanceAs (Decidable (_ ∧ _))
  | .called _ (some _) (.refused _) | .called _ (some _) (.wrote _ _) | .called _ (some _) .hungUp
  | .called _ (some _) (.read _ _ _ _) | .called _ (some _) (.handled _)
  | .event _ (some _) (.sent _ _) | .event _ (some _) (.refused _) | .event _ (some _) .hungUp
  | .event _ (some _) (.read _ _ _ _) | .event _ (some _) (.handled _)
  | .called _ none _ | .event _ none _ | .waiting _ | .added _ _ =>
    inferInstanceAs (Decidable True)

/-- What the connection still has to answer, or has answered in its queue, came from the
process behind its next socket. -/
def SameProcess (proc : Handle → SocketId → Process) (s : Connections β) (h : Handle)
    (origin : Option Origin) : Prop :=
  (∀ a ∈ (s.ends h).stack, proc h a.socket = proc h (s.ends h).nextSocket) ∧
    ∀ o ∈ (origin :: s.owners h).filterMap id,
      proc h o.socket = proc h (s.ends h).nextSocket

/-- A connection that is handling an invoke is not replaced, and where it opens a new socket,
the process it serves is on that socket too. -/
def Settled (proc : Handle → SocketId → Process) (_past : List (Label β)) (s : Connections β) :
    Label β → Prop
  | .called h origin (.sent _ _) => (s.ends h).conn.socket = none → SameProcess proc s h origin
  | .added _ serviceId => ∀ h ∈ s.table serviceId, (s.ends h).stack.isEmpty = true
  | _ => True

instance [DecidableEq Process] (proc : Handle → SocketId → Process) (past : List (Label β))
    (s : Connections β) (l : Label β) : Decidable (Settled proc past s l) :=
  match l with
  | .called h _ (.sent _ _) =>
    inferInstanceAs (Decidable ((s.ends h).conn.socket = none → _ ∧ _))
  | .added _ serviceId =>
    inferInstanceAs (Decidable (∀ h ∈ s.table serviceId, (s.ends h).stack.isEmpty = true))
  | .called _ _ (.refused _) | .called _ _ (.wrote _ _) | .called _ _ .hungUp
  | .called _ _ (.read _ _ _ _) | .called _ _ (.handled _) | .waiting _ | .event _ _ _ =>
    inferInstanceAs (Decidable True)

namespace Routing

/-- What is queued on a connection, and what it handles, concerns the process it is connected
to. -/
structure Local (proc : Handle → SocketId → Process) (h : Handle) (e : Endpoint β)
    (owners : List (Option Origin)) : Prop where
  queue : owners.length = e.conn.writeQueue.length
  owned : ∀ o, some o ∈ owners → o.handle = h
  registered : e.conn.socket = none → e.conn.interest = none
  handled : ∀ socket, e.conn.socket = some socket → e.conn.interest.isSome →
    ∀ a ∈ e.stack, proc h a.socket = proc h socket
  answered : ∀ socket, e.conn.socket = some socket → e.conn.interest.isSome →
    ∀ o, some o ∈ owners → proc h o.socket = proc h socket

structure Invariant (proc : Handle → SocketId → Process) (s : Connections β) : Prop where
  listed : ∀ serviceId h, s.table serviceId = some h →
    h < s.count ∧ (s.ends h).conn.serviceId = serviceId
  unmade : ∀ h, s.count ≤ h → s.ends h = { conn := .create ⟨[], 0⟩ } ∧ s.owners h = []
  handling : ∀ h, (s.ends h).stack ≠ [] → s.table (s.ends h).conn.serviceId = some h
  each : ∀ h, Local proc h (s.ends h) (s.owners h)
  sending : ∀ x ∈ s.sending, x.handle < s.count ∧ (s.ends x.handle).conn.socket = none ∧
    ∀ o ∈ x.origin, o.handle = x.handle
  apart : (s.sending.map Sending.handle).Nodup

variable {proc : Handle → SocketId → Process}

theorem Local.started {e : Endpoint β} (started : e.Started) (h : Handle) :
    Local proc h e [] := by
  cases started <;> constructor <;> simp [LocalBusConnection.create, LocalBusConnection.accept]

theorem Local.event {e e' : Endpoint β} {owners : List (Option Origin)}
    (here : Local proc h e owners) (step : Endpoint.Step e l e') (calls : l.calls = false) :
    Local proc h e'
      (owners.drop (e.conn.writeQueue.length - e'.conn.writeQueue.length)) := by
  have suspended := fun a => step.activations (a := a)
  have still {o : Origin} {n : Nat} (queued : some o ∈ owners.drop n) : some o ∈ owners :=
    List.mem_of_mem_drop queued
  cases step.writes with
  | sent | refused => contradiction
  | @wrote socket n up registered =>
    have shorter : (e.conn.output n).2.writeQueue.length ≤ e.conn.writeQueue.length := by
      obtain ⟨j, _, data⟩ := LocalBusConnection.writeFront_data n e.conn.writeQueue
      have := congrArg List.length data
      simp only [List.length_map, List.length_drop] at this
      rw [LocalBusConnection.output_eq]
      change (LocalBusConnection.writeFront n e.conn.writeQueue).2.length ≤ _
      omega
    have socket_eq : (e.conn.output n).2.socket = e.conn.socket := by
      rw [LocalBusConnection.output_eq]
    have same {s : SocketId} (now : (e.conn.output n).2.socket = some s) :
        e.conn.socket = some s := socket_eq ▸ now
    constructor
    case queue =>
      rw [List.length_drop, here.queue]
      exact Nat.sub_sub_self shorter
    case owned => exact fun o queued => here.owned o (still queued)
    case registered =>
      intro down
      rw [socket_eq, up] at down
      contradiction
    case handled => exact fun s now _ => here.handled s (same now) registered
    case answered =>
      exact fun s now _ o queued => here.answered s (same now) registered o (still queued)
  | hungUp =>
    constructor
    case queue => simp [here.queue, Endpoint.hangup, LocalBusConnection.hangup]
    case owned => exact fun o queued => here.owned o (still queued)
    case registered => exact fun _ => rfl
    case handled | answered =>
      intro s up
      contradiction
  | reading task serial stack =>
    constructor
    case queue => simp [here.queue]
    case owned => exact fun o queued => here.owned o (still queued)
    case registered => exact here.registered
    case handled =>
      intro s up registered a now
      rcases suspended a now with ⟨b, before, socket⟩ | arrived
      · rw [← socket]
        exact here.handled s up registered b before
      · rw [Option.some.inj (arrived.symm.trans up)]
    case answered =>
      exact fun s up registered o queued => here.answered s up registered o (still queued)

theorem Local.send {e e' : Endpoint β} {owners : List (Option Origin)} {origin : Option Origin}
    (here : Local proc h e owners) (done : e.send data connects = (e', some serial))
    (home : ∀ o ∈ origin, o.handle = h)
    (up : ∀ socket, e.conn.socket = some socket → e.conn.interest.isSome →
      ∀ o ∈ origin, proc h o.socket = proc h socket)
    (down : e.conn.socket = none →
      (∀ a ∈ e.stack, proc h a.socket = proc h e.nextSocket) ∧
        ∀ o, some o ∈ origin :: owners → proc h o.socket = proc h e.nextSocket) :
    Local proc h e' (owners ++ [origin]) := by
  have split {o : Origin} (queued : some o ∈ owners ++ [origin]) :
      some o ∈ owners ∨ o ∈ origin := by
    rcases List.mem_append.mp queued with queued | last
    · exact .inl queued
    · exact .inr (List.mem_singleton.mp last).symm
  obtain ⟨socket, opens, ⟨registered, -, rfl⟩ | ⟨failed, -⟩⟩ := Endpoint.send_cases done
  swap
  · contradiction
  constructor
  case queue => simp [here.queue]
  case owned => exact fun o queued => (split queued).elim (here.owned o) (home o)
  case registered => simp
  case handled =>
    rintro s ⟨⟩ - a suspended
    rcases opens with open_ | ⟨closed, rfl⟩
    · exact here.handled socket open_ (registered (by simp [open_])) a suspended
    · exact (down closed).1 a suspended
  case answered =>
    rintro s ⟨⟩ - o queued
    rcases opens with open_ | ⟨closed, rfl⟩
    · have interest := registered (by simp [open_])
      rcases split queued with queued | last
      · exact here.answered socket open_ interest o queued
      · exact up socket open_ interest o last
    · apply (down closed).2
      rcases split queued with queued | last
      · exact List.mem_cons_of_mem _ queued
      · exact List.mem_cons.mpr (.inl last.symm)

theorem Local.refused {e e' : Endpoint β} {owners : List (Option Origin)}
    (here : Local proc h e owners) (done : e.send data connects = (e', none)) :
    Local proc h e' owners := by
  obtain ⟨socket, opens, ⟨_, serial, _⟩ | ⟨-, rfl⟩⟩ := Endpoint.send_cases done
  · contradiction
  · have same {s : SocketId} (now : some socket = some s) (registered : e.conn.interest.isSome) :
        e.conn.socket = some s := by
      rcases opens with up | ⟨closed, _⟩
      · exact up.trans now
      · -- a connection without a socket is not registered
        simp [here.registered closed] at registered
    refine ⟨here.queue, here.owned, by simp, ?_, ?_⟩
    · exact fun s now registered => here.handled s (same now registered) registered
    · exact fun s now registered => here.answered s (same now registered) registered

theorem invariant_start : Invariant proc ({} : Connections β) := by
  refine ⟨by simp, fun _ _ => ⟨rfl, rfl⟩, ?_, fun _ => .started (.outgoing _) _, by simp,
    by simp⟩
  intro h suspended
  exact absurd rfl suspended

theorem Invariant.insert {s : Connections β} (inv : Invariant proc s) {e : Endpoint β}
    (started : e.Started) (idle : e.stack = []) (named : e.conn.serviceId = serviceId)
    (replaced : ∀ h, s.table serviceId = some h → (s.ends h).stack = []) :
    Invariant proc { s with
      table := Function.update s.table serviceId (some s.count)
      ends := Function.update s.ends s.count e
      count := s.count + 1 } := by
  constructor
  case listed =>
    intro id h entry
    by_cases here : id = serviceId
    · subst here
      obtain rfl : s.count = h := by simpa using entry
      exact ⟨Nat.lt_succ_self _, by simpa using named⟩
    · have entry : s.table id = some h := by simpa [here] using entry
      obtain ⟨made, named⟩ := inv.listed id h entry
      refine ⟨Nat.lt_succ_of_lt made, ?_⟩
      simpa [Nat.ne_of_lt made] using named
  case unmade =>
    intro h later
    have later : s.count + 1 ≤ h := later
    have other : h ≠ s.count := by omega
    simpa [other] using inv.unmade h (by omega)
  case handling =>
    intro h suspended
    by_cases new : h = s.count
    · exact absurd idle (by simpa [new] using suspended)
    · replace suspended : (s.ends h).stack ≠ [] := by simpa [new] using suspended
      have entry := inv.handling h suspended
      by_cases here : (s.ends h).conn.serviceId = serviceId
      · exact absurd (replaced h (here ▸ entry)) suspended
      · simpa [new, here] using entry
  case each =>
    intro h
    by_cases new : h = s.count
    · subst new
      simpa [(inv.unmade s.count (Nat.le_refl _)).2] using Local.started started s.count
    · simpa [new] using inv.each h
  case sending =>
    intro x waiting
    obtain ⟨made, down, home⟩ := inv.sending x waiting
    refine ⟨Nat.lt_succ_of_lt made, ?_, home⟩
    simpa [Nat.ne_of_lt made] using down
  case apart => exact inv.apart

theorem Invariant.connect {s s' : Connections β} (inv : Invariant proc s)
    (done : s.connect serviceId = (s', h)) :
    Invariant proc s' ∧ s'.table serviceId = some h ∧ s'.sending = s.sending ∧
      s'.owners = s.owners ∧ (s'.ends h).stack = (s.ends h).stack ∧
      (s'.ends h).nextSocket = (s.ends h).nextSocket ∧
      (s'.ends h).conn.socket = (s.ends h).conn.socket := by
  rcases connect_cases done with ⟨rfl, entry⟩ | ⟨absent, rfl, rfl⟩
  · exact ⟨inv, entry, rfl, rfl, rfl, rfl, rfl⟩
  · refine ⟨inv.insert (.outgoing serviceId) rfl rfl (by simp [absent]), by simp, rfl, rfl, ?_⟩
    simp [(inv.unmade s.count (Nat.le_refl _)).1, LocalBusConnection.create]

/-- The connection an answer asks for is the one the invoke came in on. -/
theorem Invariant.asked {s s' : Connections β} {origin : Origin} (inv : Invariant proc s)
    (asked : s.Asked serviceId (some origin)) (done : s.connect serviceId = (s', h)) :
    h = origin.handle ∧ s' = s ∧ ∃ a ∈ (s.ends h).stack, a.socket = origin.socket := by
  obtain ⟨rfl, a, suspended, socket⟩ := asked
  have entry := inv.handling origin.handle (List.ne_nil_of_mem suspended)
  rcases connect_cases done with ⟨rfl, found⟩ | ⟨absent, -⟩
  · obtain rfl : origin.handle = h := Option.some.inj (entry.symm.trans found)
    exact ⟨rfl, rfl, a, suspended, socket⟩
  · rw [entry] at absent
    contradiction

theorem Invariant.act {s s' : Connections β} (inv : Invariant proc s) {h : Handle}
    {l : Connection.Label β} {e : Endpoint β} {owners : List (Option Origin)}
    (made : h < s.count) (step : Endpoint.Step (s.ends h) l e) (next : Local proc h e owners)
    (found : e.stack ≠ [] → s.table (s.ends h).conn.serviceId = some h)
    (table : s'.table = s.table) (count : s'.count = s.count)
    (ends : s'.ends = Function.update s.ends h e)
    (queue : s'.owners = Function.update s.owners h owners)
    (sending : s'.sending.Sublist s.sending)
    (unsent : (∃ x ∈ s'.sending, x.handle = h) → e.conn.socket = none) : Invariant proc s' := by
  constructor
  case listed =>
    rw [table, count, ends]
    intro id h' entry
    obtain ⟨made', named⟩ := inv.listed id h' entry
    refine ⟨made', ?_⟩
    by_cases here : h' = h
    · subst here
      rw [Function.update_self, step.serviceId, named]
    · rw [Function.update_of_ne here, named]
  case unmade =>
    rw [count, ends, queue]
    intro h' later
    have other : h' ≠ h := Nat.ne_of_gt (Nat.lt_of_lt_of_le made later)
    rw [Function.update_of_ne other, Function.update_of_ne other]
    exact inv.unmade h' later
  case handling =>
    rw [table, ends]
    intro h' suspended
    by_cases here : h' = h
    · subst here
      rw [Function.update_self] at suspended ⊢
      rw [step.serviceId]
      exact found suspended
    · rw [Function.update_of_ne here] at suspended ⊢
      exact inv.handling h' suspended
  case each =>
    rw [ends, queue]
    intro h'
    by_cases here : h' = h
    · subst here
      simpa using next
    · rw [Function.update_of_ne here, Function.update_of_ne here]
      exact inv.each h'
  case sending =>
    rw [count, ends]
    intro x waiting
    obtain ⟨made', down, home⟩ := inv.sending x (sending.subset waiting)
    refine ⟨made', ?_, home⟩
    by_cases here : x.handle = h
    · rw [here, Function.update_self]
      exact unsent ⟨x, waiting, here⟩
    · rw [Function.update_of_ne here]
      exact down
  case apart => exact (sending.map _).nodup inv.apart

theorem send_stack {e e' : Endpoint β} (done : e.send data connects = (e', serial)) :
    e'.stack = e.stack := by
  obtain ⟨socket, _, ⟨_, _, rfl⟩ | ⟨_, rfl⟩⟩ := Endpoint.send_cases done <;> rfl

theorem Invariant.called {s s' : Connections β} (inv : Invariant proc s) {h : Handle}
    {origin : Option Origin} {serial : Option UInt32} {e : Endpoint β} (made : h < s.count)
    (done : (s.ends h).send data connects = (e, serial))
    (home : ∀ o ∈ origin, o.handle = h)
    (up : ∀ socket, (s.ends h).conn.socket = some socket → (s.ends h).conn.interest.isSome →
      ∀ o ∈ origin, proc h o.socket = proc h socket)
    (down : serial.isSome → (s.ends h).conn.socket = none → SameProcess proc s h origin)
    (sending : s'.sending.Sublist s.sending) (unsent : ∀ x ∈ s'.sending, x.handle ≠ h)
    (same : s' = { s with sending := s'.sending }) :
    Invariant proc (s'.called h origin e serial) := by
  have found : e.stack ≠ [] → s.table (s.ends h).conn.serviceId = some h := by
    rw [send_stack done]
    exact inv.handling h
  have apart : (∃ x ∈ s'.sending, x.handle = h) → e.conn.socket = none := by
    rintro ⟨x, waiting, here⟩
    exact absurd here (unsent x waiting)
  have step := outcome_step done
  cases serial with
  | some serial =>
    have next : Local proc h e (s.owners h ++ [origin]) := by
      apply (inv.each h).send done home up
      intro closed
      obtain ⟨handled, answered⟩ := down rfl closed
      refine ⟨handled, fun o queued => answered o ?_⟩
      exact List.mem_filterMap.mpr ⟨some o, queued, rfl⟩
    refine inv.act made step next found ?_ ?_ ?_ ?_ sending apart <;> rw [same] <;> rfl
  | none =>
    refine inv.act made step ((inv.each h).refused done) found ?_ ?_ ?_ ?_ sending apart
    · rw [same]; rfl
    · rw [same]; rfl
    · rw [same]; rfl
    · rw [same]
      exact (Function.update_eq_self h s.owners).symm

theorem event_down {e e' : Endpoint β} (step : Endpoint.Step e l e') (calls : l.calls = false)
    (down : e.conn.socket = none) : e'.conn.socket = none := by
  cases step.writes with
  | sent | refused => contradiction
  | wrote n up =>
    rw [down] at up
    contradiction
  | hungUp => rfl
  | reading => exact down

theorem invariant_step {past : List (Label β)} {s s' : Connections β} {l : Label β}
    (inv : Invariant proc s) (step : Step s l s') (settled : Settled proc past s l) :
    Invariant proc s' ∧ Routed proc l := by
  cases step with
  | @send s₁ serviceId origin h data _ e serial asked found connecting done =>
    obtain ⟨inv₁, entry, -, owners, stack, next, socket⟩ := inv.connect found
    have answer : ∀ o ∈ origin, o.handle = h ∧ s₁ = s ∧
        ∃ a ∈ (s.ends h).stack, a.socket = o.socket := by
      rintro o ⟨⟩
      obtain ⟨home, same, suspended⟩ := inv.asked asked found
      exact ⟨home.symm, same, suspended⟩
    constructor
    · apply inv₁.called (inv₁.listed _ _ entry).1 done (fun o asks => (answer o asks).1) ?_ ?_
        (List.Sublist.refl _) (fun x waiting here => connecting ⟨x, waiting, here⟩) rfl
      · intro current up registered o asks
        obtain ⟨-, rfl, a, suspended, here⟩ := answer o asks
        rw [← here]
        exact (inv.each h).handled current up registered a suspended
      · intro accepted closed
        rw [SameProcess, owners, stack, next]
        rw [socket] at closed
        cases serial with
        | none => contradiction
        | some serial => exact settled closed
    · cases origin with
      | none => trivial
      | some o =>
        cases serial with
        | none => trivial
        | some serial => exact (answer o rfl).1.symm
  | @busy _ _ origin h _ _ found _ => exact ⟨(inv.connect found).1, by cases origin <;> trivial⟩
  | @wait s₁ _ origin h _ asked found connecting down =>
    obtain ⟨inv₁, entry, -⟩ := inv.connect found
    refine ⟨⟨inv₁.listed, inv₁.unmade, inv₁.handling, inv₁.each, ?_, ?_⟩, trivial⟩
    · rintro x waiting
      rcases List.mem_cons.mp waiting with rfl | waiting
      · refine ⟨(inv₁.listed _ _ entry).1, down, ?_⟩
        rintro o ⟨⟩
        exact (inv.asked asked found).1.symm
      · exact inv₁.sending x waiting
    · refine List.nodup_cons.mpr ⟨fun twice => ?_, inv₁.apart⟩
      obtain ⟨x, waiting, here⟩ := List.mem_map.mp twice
      exact connecting ⟨x, waiting, here⟩
  | @finish rest origin h data _ e serial waiting done =>
    obtain ⟨made, down, home⟩ := inv.sending ⟨h, origin, data⟩ (by simp [waiting])
    have apart := inv.apart
    rw [waiting, List.map_cons, List.nodup_cons] at apart
    constructor
    · refine inv.called made done home ?_ ?_ ?_ ?_ rfl
      · intro socket up
        rw [down] at up
        contradiction
      · intro accepted closed
        cases serial with
        | none => contradiction
        | some serial => exact settled closed
      · rw [waiting]
        exact List.sublist_cons_self _ _
      · exact fun x later here => apart.1 (List.mem_map.mpr ⟨x, later, here⟩)
    · cases origin with
      | none => trivial
      | some o =>
        cases serial with
        | none => trivial
        | some serial => exact (home o rfl).symm
  | add serviceId =>
    refine ⟨inv.insert (.accepted serviceId 0) rfl rfl fun h entry => ?_, trivial⟩
    simpa using settled h entry
  | @event serviceId h l e entry step calls =>
    obtain ⟨made, named⟩ := inv.listed serviceId h entry
    constructor
    · refine inv.act made step ((inv.each h).event step calls) (fun _ => named ▸ entry) rfl rfl
        rfl rfl (List.Sublist.refl _) ?_
      rintro ⟨x, waiting, rfl⟩
      exact event_down step calls (inv.sending x waiting).2.1
    · cases front : (s.owners h).head?.join with
      | none => trivial
      | some o =>
        cases step with
        | wrote up registered done =>
          have queued : some o ∈ s.owners h := by
            rw [Option.join_eq_some_iff] at front
            exact List.mem_of_mem_head? front
          have home := (inv.each h).owned o queued
          refine ⟨home.symm, ?_⟩
          rw [home]
          exact ((inv.each h).answered _ up registered o queued).symm
        | _ => trivial

end Routing

/-- Every run in which no connection is replaced while it handles an invoke, and none goes on
with another process: each answer is queued on the connection its invoke came in on, and
written to the process the invoke came from. -/
theorem answers_routed {proc : Handle → SocketId → Process} {hist : List (Label β)}
    {s : Connections β} (run : Guarded Step (Settled proc) {} hist s) :
    ∀ l ∈ hist, Routed proc l := by
  have both : Routing.Invariant proc s ∧ ∀ l ∈ hist, Routed proc l := by
    refine run.history (P := fun hist s => Routing.Invariant proc s ∧ ∀ l ∈ hist, Routed proc l)
      ?_ ⟨Routing.invariant_start, by simp⟩
    rintro past s l s' ⟨inv, before⟩ step settled
    obtain ⟨next, routed⟩ := Routing.invariant_step inv step settled
    refine ⟨next, fun m member => ?_⟩
    rcases List.mem_append.mp member with member | last
    · exact before m member
    · exact List.mem_singleton.mp last ▸ routed
  exact both.2

def methodCall : List UInt8 :=
  frame (Session.invokePayload .plain ⟨⟨['s'], 1⟩, 0⟩ ['m'] [])

def methodResult : List UInt8 := frame (Session.resultPayload .plain 0 [0])

/-- While one method runs, its caller hangs up and comes back on the next socket, and another
service connects. -/
theorem answers_routed_reconnected :
    ∃ (hist : List (Label UInt8)) (s : Connections UInt8), Reaches Step {} hist s ∧
      s.count = 2 ∧ (sends (of 0 hist)).length = 2 ∧ ∀ l ∈ hist, Routed (fun h _ => h) l := by
  have run := played (Settled (β := UInt8) fun h _ => h) {}
    [.send none ⟨['a'], 1⟩ methodCall true, .event ⟨['a'], 1⟩ (.output 99),
      .event ⟨['a'], 1⟩ (.input methodCall), .event ⟨['a'], 1⟩ .hangup, .add ⟨['b'], 1⟩,
      .send (some ⟨0, 0⟩) ⟨['a'], 1⟩ methodResult true, .event ⟨['a'], 1⟩ (.output 99)]
  exact ⟨_, _, run.reaches, by decide +kernel, by decide +kernel, answers_routed run⟩

/-- A second process with the identifier of the caller is accepted while the method runs, and
gets the answer, the identifier being read from the connection `AddConnection` has destroyed; and
so does a process that takes the place of the caller behind a hang-up. -/
theorem answers_misrouted :
    (∃ (hist : List (Label UInt8)) (s : Connections UInt8), Reaches Step {} hist s ∧
      handed (of 0 hist) = [(0, methodCall)] ∧ ¬ ∀ l ∈ hist, Routed (fun h _ => h) l) ∧
    ∃ (hist : List (Label UInt8)) (s : Connections UInt8), Reaches Step {} hist s ∧
      handed (of 0 hist) = [(0, methodCall)] ∧ ¬ ∀ l ∈ hist, Routed (fun _ socket => socket) l := by
  constructor
  · exact ⟨_, _, (played (fun _ _ _ => True) {} [.add ⟨['a'], 1⟩,
      .event ⟨['a'], 1⟩ (.input methodCall), .add ⟨['a'], 1⟩,
      .send (some ⟨0, 0⟩) ⟨['a'], 1⟩ methodResult true]).reaches, by decide +kernel,
      by decide +kernel⟩
  · exact ⟨_, _, (played (fun _ _ _ => True) {} [.add ⟨['a'], 1⟩,
      .event ⟨['a'], 1⟩ (.input methodCall), .event ⟨['a'], 1⟩ .hangup,
      .send (some ⟨0, 0⟩) ⟨['a'], 1⟩ methodResult true,
      .event ⟨['a'], 1⟩ (.output 99)]).reaches, by decide +kernel, by decide +kernel⟩

end Connections
end PBus
