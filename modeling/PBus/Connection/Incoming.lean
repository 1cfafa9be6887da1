import PBus.Connection.Decoding

/-! What a connection hands over of each of its sockets. The half-read frame survives a
hang-up; a socket's own frames come out, and nothing else, if the first input on it finds
no frame half read. -/
namespace PBus.Connection
open Transition
variable {β : Type} [Cell β]

namespace Label

def receivedOn (socket : SocketId) : Label β → List β
  | .read s _ bytes _ => if s = socket then bytes else []
  | _ => []

def dispatchedOn (socket : SocketId) (l : Label β) : List (UInt32 × List β) :=
  (l.dispatched.filter fun d => d.socket = socket).map fun d => (d.serial, d.frame)

end Label

def bytesOn (socket : SocketId) (hist : List (Label β)) : List β :=
  hist.flatMap (Label.receivedOn socket)

/-- The calls of `OnIncomingData` with frames from a socket: the serial, and the whole frame. -/
def handedOn (socket : SocketId) (hist : List (Label β)) : List (UInt32 × List β) :=
  hist.flatMap (Label.dispatchedOn socket)

def framesOn (socket : SocketId) (hist : List (Label β)) : List (List β) :=
  (handedOn socket hist).map Prod.snd

/-- The frames handed over from a socket are those of its own stream: all of them, unless a
call of `OnIncomingData` is still running. -/
def OwnFrames (socket : SocketId) (hist : List (Label β)) (e : Endpoint β) : Prop :=
  framesOn socket hist <+: (Delimited.parse (frames β) (bytesOn socket hist)).1 ∧
    (e.stack = [] → framesOn socket hist = (Delimited.parse (frames β) (bytesOn socket hist)).1)

/-- Input does not arrive while a frame is handled, and the first input on a socket finds no
frame half read. -/
def Incoming.Clean (past : List (Label β)) (e : Endpoint β) : Label β → Prop
  | .read socket nested _ _ => nested = false ∧
      ((bytesOn socket past).isEmpty = true → e.conn.readTask.pending.isEmpty = true)
  | _ => True

instance Incoming.decidableClean (past : List (Label β)) (e : Endpoint β) (l : Label β) :
    Decidable (Incoming.Clean past e l) :=
  match l with
  | .read _ nested _ _ => inferInstanceAs (Decidable (nested = false ∧ (_ → _ = true)))
  | .sent _ _ | .refused _ | .wrote _ _ | .hungUp | .handled _ => inferInstanceAs (Decidable True)

namespace Incoming

/-- `cur` is the socket of the last input: what is half read is the end of its stream. All
other sockets are read up or not read at all. The serials on a socket run from a number
that meets `B`. -/
structure Invariant (B : UInt32 → Prop) (cur : SocketId) (us : List (List β))
    (hist : List (Label β)) (e : Endpoint β) : Prop where
  decoding : Decoding us (bytesOn cur hist) e
  handed : ∃ n, B n ∧ handedOn cur hist = numberedFrom n us ∧
    e.conn.readSerial = n + UInt32.ofNat us.length
  others : ∀ s, s ≠ cur → ∃ n, (bytesOn s hist ≠ [] → B n) ∧
    handedOn s hist = numberedFrom n (Delimited.parse (frames β) (bytesOn s hist)).1
  suspended : ∀ a ∈ e.stack, a.socket = cur
  unread : ∀ s, e.conn.socket = some s → s ≠ cur → bytesOn s hist = []
  opened : ∀ s, e.conn.socket = some s → s < e.nextSocket
  unopened : ∀ s, e.nextSocket ≤ s → bytesOn s hist = []

theorem bytesOn_append (s : SocketId) (past : List (Label β)) (l : Label β) :
    bytesOn s (past ++ [l]) = bytesOn s past ++ l.receivedOn s := by simp [bytesOn]

theorem handedOn_append (s : SocketId) (past : List (Label β)) (l : Label β) :
    handedOn s (past ++ [l]) = handedOn s past ++ l.dispatchedOn s := by simp [handedOn]

theorem dispatchedOn_eq {l : Label β} {dispatch : Option (Dispatch β)}
    (dispatched : l.dispatched = dispatch.toList) (from' : ∀ d ∈ dispatch, d.socket = socket)
    (s : SocketId) : l.dispatchedOn s =
      if socket = s then dispatch.toList.map (fun d => (d.serial, d.frame)) else [] := by
  cases dispatch with
  | none => simp [Label.dispatchedOn, dispatched]
  | some d =>
    obtain rfl := from' d rfl
    simp only [Label.dispatchedOn, dispatched, Option.toList_some]
    split <;> rename_i here <;> simp [here]

theorem Invariant.switch {B : UInt32 → Prop} {hist : List (Label β)} {e : Endpoint β}
    (inv : Invariant B cur us hist e) (idle : e.stack = []) (up : e.conn.socket = some s)
    (other : s ≠ cur) (empty : e.conn.readTask.pending = []) (begins : B e.conn.readSerial) :
    Invariant B s [] hist e := by
  have silent : bytesOn s hist = [] := inv.unread s up other
  have none : handedOn s hist = [] := by
    obtain ⟨n, _, handed⟩ := inv.others s other
    rw [handed, silent, Delimited.parse_unfinished Delimited.partial_nil]
    rfl
  obtain ⟨unfinished, _⟩ := inv.decoding.idle idle
  constructor
  case decoding =>
    rw [silent]
    exact .fresh e idle empty unfinished
  case handed => exact ⟨e.conn.readSerial, begins, none, by simp⟩
  case others =>
    intro t ht
    by_cases last : t = cur
    · subst last
      obtain ⟨n, begun, handed, _⟩ := inv.handed
      exact ⟨n, fun _ => begun, by rw [handed, inv.decoding.parse_eq.2 idle]⟩
    · exact inv.others t last
  case suspended => simp [idle]
  case unread =>
    intro t ht apart
    rw [up] at ht
    exact absurd (Option.some.inj ht).symm apart
  case opened => exact inv.opened
  case unopened => exact inv.unopened

theorem Invariant.onward {B : UInt32 → Prop} {past : List (Label β)} {e e' : Endpoint β}
    {l : Label β} (inv : Invariant B cur us past e) (received : l.receivedOn cur = data)
    (elsewhere : ∀ s, s ≠ cur → l.receivedOn s = [])
    (dispatched : l.dispatched = dispatch.toList)
    (from' : ∀ d ∈ dispatch, d.serial = e.conn.readSerial ∧ d.socket = cur)
    (next : Decoding (us ++ Decoding.handedBy dispatch) (bytesOn cur past ++ data) e')
    (number : e'.conn.readSerial = e.conn.readSerial + UInt32.ofNat dispatch.toList.length)
    (suspended : ∀ a ∈ e'.stack, a.socket = cur) (socket : e'.conn.socket = e.conn.socket)
    (opened : e'.nextSocket = e.nextSocket) (quiet : e.nextSocket ≤ cur → data = []) :
    Invariant B cur (us ++ Decoding.handedBy dispatch) (past ++ [l]) e' := by
  have apart (s : SocketId) (other : s ≠ cur) : bytesOn s (past ++ [l]) = bytesOn s past := by
    rw [bytesOn_append, elsewhere s other, List.append_nil]
  have on (s : SocketId) := dispatchedOn_eq dispatched (fun d hd => (from' d hd).2) s
  constructor
  case decoding =>
    rw [bytesOn_append, received]
    exact next
  case handed =>
    obtain ⟨n, begun, handed, serial⟩ := inv.handed
    refine ⟨n, begun, ?_, ?_⟩
    · rw [handedOn_append, handed, on, if_pos rfl]
      exact Decoding.numberedFrom_dispatch fun d hd => (from' d hd).1.trans serial
    · rw [number, serial, UInt32.add_assoc, Decoding.ofNat_dispatch]
  case others =>
    intro s other
    rw [apart s other, handedOn_append, on, if_neg (Ne.symm other), List.append_nil]
    exact inv.others s other
  case suspended => exact suspended
  case unread =>
    intro s up other
    rw [apart s other]
    exact inv.unread s (socket ▸ up) other
  case opened =>
    intro s up
    rw [opened]
    exact inv.opened s (socket ▸ up)
  case unopened =>
    intro s hs
    rw [opened] at hs
    by_cases here : s = cur
    · subst here
      rw [bytesOn_append, inv.unopened s hs, received, quiet hs, List.append_nil]
    · rw [apart s here]
      exact inv.unopened s hs

theorem Invariant.quiet {B : UInt32 → Prop} {past : List (Label β)} {e e' : Endpoint β}
    {l : Label β} (inv : Invariant B cur us past e) (step : Endpoint.Step e l e')
    (received : l.received = []) (dispatched : l.dispatched = [])
    (task : e'.conn.readTask = e.conn.readTask) (serial : e'.conn.readSerial = e.conn.readSerial)
    (stack : e'.stack = e.stack) : Invariant B cur us (past ++ [l]) e' := by
  obtain ⟨later, sockets⟩ := step.sockets
  have unread (s : SocketId) : bytesOn s (past ++ [l]) = bytesOn s past := by
    have silent : l.receivedOn s = [] := by
      cases l <;> simp_all [Label.receivedOn, Label.received]
    rw [bytesOn_append, silent, List.append_nil]
  have unhanded (s : SocketId) : handedOn s (past ++ [l]) = handedOn s past := by
    simp [handedOn_append, Label.dispatchedOn, dispatched]
  constructor
  case decoding =>
    rw [unread]
    exact inv.decoding.frame task stack
  case handed =>
    rw [unhanded, serial]
    exact inv.handed
  case others =>
    intro s other
    rw [unread, unhanded]
    exact inv.others s other
  case suspended =>
    rw [stack]
    exact inv.suspended
  case unread =>
    intro s up other
    rw [unread]
    rcases sockets s up with up | ⟨new, _⟩
    · exact inv.unread s up other
    · exact inv.unopened s (Nat.le_of_eq new.symm)
  case opened =>
    intro s up
    rcases sockets s up with up | ⟨_, opened⟩
    · exact Nat.lt_of_lt_of_le (inv.opened s up) later
    · exact opened
  case unopened =>
    intro s hs
    rw [unread]
    exact inv.unopened s (Nat.le_trans later hs)

theorem invariant_step {B : UInt32 → Prop} {past : List (Label β)} {e e' : Endpoint β}
    {l : Label β} (inv : ∃ cur us, Invariant B cur us past e) (step : Endpoint.Step e l e')
    (clean : Clean past e l)
    (begins : ∀ s ∈ l.inputSocket, bytesOn s past = [] → B e.conn.readSerial) :
    ∃ cur us, Invariant B cur us (past ++ [l]) e' := by
  obtain ⟨cur, us, inv⟩ := inv
  rcases step.reads with ⟨received, dispatched, _, task, serial, stack⟩ |
    ⟨socket, bytes, dispatch, rfl, up, _, taken⟩ | ⟨dispatch, rfl, taken⟩
  · exact ⟨cur, us, inv.quiet step received dispatched task serial stack⟩
  · obtain ⟨unnested, empty⟩ := clean
    have idle : e.stack = [] := by simpa using unnested
    obtain ⟨us, inv⟩ : ∃ us, Invariant B socket us past e := by
      by_cases same : socket = cur
      · exact ⟨us, same ▸ inv⟩
      · have silent := inv.unread socket up same
        exact ⟨[], inv.switch idle up same (List.isEmpty_iff.mp (empty (by simp [silent])))
          (begins socket rfl silent)⟩
    obtain ⟨next, from', number⟩ := inv.decoding.read idle taken
    obtain ⟨task, serial, stack, eq, calls⟩ := e.loop_frame socket bytes
    rw [taken] at eq
    obtain rfl := eq
    refine ⟨socket, _, inv.onward (if_pos rfl)
      (fun s other => by simp [Label.receivedOn, Ne.symm other]) rfl from' next number ?_ rfl rfl
      (fun unopened => absurd (inv.opened socket up) (Nat.not_lt.mpr unopened))⟩
    rcases calls with rfl | ⟨rest, rfl⟩ <;> simp [idle]
  · obtain ⟨top, below, task, serial, stack, shape, rfl, calls⟩ := Endpoint.handled_frame taken
    obtain ⟨rfl, _⟩ := inv.decoding.busy top below shape
    have cur' : top.socket = cur := inv.suspended top (by simp [shape])
    obtain ⟨next, from', number⟩ := inv.decoding.handled shape taken
    rw [cur'] at from'
    refine ⟨cur, _, inv.onward rfl (fun _ _ => rfl) rfl from'
      (by simpa [Label.receivedOn] using next) number ?_ rfl rfl (fun _ => rfl)⟩
    rcases calls with rfl | ⟨rest, rfl⟩ <;> simp [cur']

theorem invariant_start {B : UInt32 → Prop} {start : Endpoint β}
    (started : Endpoint.Started start) (zero : B 0) : ∃ cur us, Invariant B cur us [] start := by
  have unread (s : SocketId) : handedOn s ([] : List (Label β)) =
      numberedFrom 0 (Delimited.parse (frames β) (bytesOn s [])).1 := by
    rw [show bytesOn s ([] : List (Label β)) = [] from rfl,
      Delimited.parse_unfinished Delimited.partial_nil]
    rfl
  refine ⟨0, [], ?_⟩
  cases started with
  | outgoing serviceId =>
    exact ⟨.fresh _ rfl rfl rfl, ⟨0, zero, rfl, rfl⟩, fun s _ => ⟨0, fun _ => zero, unread s⟩,
      by simp, fun _ _ _ => rfl, by simp [LocalBusConnection.create], fun _ _ => rfl⟩
  | accepted serviceId socket =>
    refine ⟨.fresh _ rfl rfl rfl, ⟨0, zero, rfl, rfl⟩, fun s _ => ⟨0, fun _ => zero, unread s⟩,
      by simp, fun _ _ _ => rfl, ?_, fun _ _ => rfl⟩
    rintro s ⟨⟩
    exact Nat.lt_succ_self _

theorem invariant_run {start e : Endpoint β} {hist : List (Label β)}
    (started : Endpoint.Started start) (run : Guarded Endpoint.Step Clean start hist e) :
    ∃ cur us, Invariant (fun _ => True) cur us hist e := by
  refine run.history (P := fun hist e => ∃ cur us, Invariant _ cur us hist e) ?_
    (invariant_start started trivial)
  intro past e l e' inv step clean
  exact invariant_step inv step clean fun _ _ _ => trivial

/-- What is handed over from a socket: its own frames, under consecutive serials. -/
theorem Invariant.handed_parse {B : UInt32 → Prop} {hist : List (Label β)} {e : Endpoint β}
    (inv : Invariant B cur us hist e) (zero : B 0) (socket : SocketId) :
    ∃ n us, B n ∧ handedOn socket hist = numberedFrom n us ∧
      us <+: (Delimited.parse (frames β) (bytesOn socket hist)).1 ∧
      (e.stack = [] → us = (Delimited.parse (frames β) (bytesOn socket hist)).1) := by
  by_cases last : socket = cur
  · subst last
    obtain ⟨n, begun, handed, _⟩ := inv.handed
    obtain ⟨first, all⟩ := inv.decoding.parse_eq
    exact ⟨n, us, begun, handed, first, fun idle => (all idle).symm⟩
  · obtain ⟨n, begun, handed⟩ := inv.others socket last
    by_cases silent : bytesOn socket hist = []
    · refine ⟨0, [], zero, ?_, List.nil_prefix, fun _ => ?_⟩
      · rw [handed, silent, Delimited.parse_unfinished Delimited.partial_nil]
        rfl
      · rw [silent, Delimited.parse_unfinished Delimited.partial_nil]
    · exact ⟨n, _, begun silent, handed, List.prefix_refl _, fun _ => rfl⟩

end Incoming

/-- Every run whose first input on each socket finds no frame half read: what is handed over
from a socket are the frames of that socket's own bytes. -/
theorem own_frames_on_sockets {start e : Endpoint β} {hist : List (Label β)}
    (started : Endpoint.Started start) (run : Guarded Endpoint.Step Incoming.Clean start hist e)
    (socket : SocketId) : OwnFrames socket hist e := by
  obtain ⟨cur, us, inv⟩ := Incoming.invariant_run started run
  obtain ⟨n, us, _, handed, first, all⟩ := inv.handed_parse trivial socket
  rw [OwnFrames, framesOn, handed, numberedFrom_frames]
  exact ⟨first, all⟩

/-- A frame on each of two sockets. -/
theorem own_frames_on_next_socket :
    ∃ (hist : List (Label UInt8)) (e : Endpoint UInt8),
      Reaches Endpoint.Step { conn := .create ⟨['a'], 1⟩ } hist e ∧
      framesOn 1 hist = [[1, 0, 0, 0, 66]] ∧ OwnFrames 1 hist e := by
  have run := Endpoint.played (Incoming.Clean (β := UInt8)) { conn := .create ⟨['a'], 1⟩ }
    [.send [0, 0, 0, 0] true, .input [0, 0, 0, 0], .returned, .hangup,
      .send [0, 0, 0, 0] true, .input [1, 0, 0, 0, 66]]
  exact ⟨_, _, run.reaches, by decide +kernel, own_frames_on_sockets (.outgoing _) run 1⟩

/-- A hang-up after one byte of a length: the frame of the next socket is not handed over. -/
theorem half_read_length_kept :
    ∃ (hist : List (Label UInt8)) (e : Endpoint UInt8),
      Reaches Endpoint.Step { conn := .create ⟨['a'], 1⟩ } hist e ∧
      (Delimited.parse (frames UInt8) (bytesOn 1 hist)).1 = [[1, 0, 0, 0, 65]] ∧
      framesOn 1 hist = [] ∧ ¬ OwnFrames 1 hist e := by
  have decoded : (Delimited.parse (frames UInt8) [1, 0, 0, 0, 65]).1 = [[1, 0, 0, 0, 65]] := by
    decide +kernel
  obtain ⟨hist, e, run, idle, bytes, none⟩ : ∃ (hist : List (Label UInt8)) (e : Endpoint UInt8),
      Reaches Endpoint.Step { conn := .create ⟨['a'], 1⟩ } hist e ∧ e.stack.length = 0 ∧
      bytesOn 1 hist = [1, 0, 0, 0, 65] ∧ framesOn 1 hist = [] :=
    ⟨_, _, (Endpoint.played (fun _ _ _ => True) _ [.send [0, 0, 0, 0] true, .input [0],
      .hangup, .send [0, 0, 0, 0] true, .input [1, 0, 0, 0, 65]]).reaches, by decide +kernel,
      by decide +kernel, by decide +kernel⟩
  refine ⟨hist, e, run, by rw [bytes, decoded], none, fun exact' => ?_⟩
  have all := exact'.2 (List.eq_nil_of_length_eq_zero idle)
  rw [bytes, decoded, none] at all
  contradiction

end PBus.Connection
