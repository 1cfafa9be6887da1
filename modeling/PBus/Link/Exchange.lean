import PBus.Link.Basic

/-! Steps that are possible: a frame that is sent over a link with nothing in its way can be
written, read and handed over. -/
namespace PBus
open Transition Connection

namespace Connection.Endpoint
variable {β : Type} [Cell β]

/-- Between events, with no frame half read. -/
structure Listening (e : Endpoint β) : Prop where
  idle : e.stack = []
  unfinished : e.conn.readTask.finished = false
  nothing : e.conn.readTask.pending = []

theorem send_registered {e : Endpoint β}
    (registered : e.conn.socket.isSome → e.conn.interest.isSome) (data : List β) :
    ∃ socket, e.send data true = ({ e with
      conn := { e.conn with
        socket := some socket, interest := some true,
        writeQueue := e.conn.writeQueue ++ [⟨data, 0⟩],
        writeSerial := e.conn.writeSerial + 1 }
      nextSocket := e.nextSocket + 1 }, some e.conn.writeSerial) := by
  rw [send_eq]
  cases socket : e.conn.socket with
  | some s =>
    have same : e.conn = { e.conn with socket := some s } := by rw [← socket]
    refine ⟨s, ?_⟩
    rw [LocalBusConnection.send_connected socket,
      LocalBusConnection.enqueue_registered (registered (by simp [socket]))]
    simp [← socket]
  | none =>
    refine ⟨e.nextSocket, ?_⟩
    rw [LocalBusConnection.send_connects socket data ⟨_, true⟩ rfl,
      LocalBusConnection.enqueue_registered (by simp [LocalBusConnection.register])]
    rfl

theorem output_all {e : Endpoint β} (queue : e.conn.writeQueue = [⟨data, 0⟩]) :
    e.output data.length = (data, { e with
      conn := { e.conn with
        writeQueue := [], interest := e.conn.interest.map fun _ => false } }) := by
  simp [output_eq, LocalBusConnection.output_eq, queue, LocalBusConnection.writeFront,
    WriteTask.getBuffer, WriteTask.complete, WriteTask.finished]

theorem loop_whole {e : Endpoint β} (listening : e.Listening)
    (whole : Delimited.Whole (frames β) u) (socket : SocketId) (rest : List β) :
    ∃ task d, e.loop socket (u ++ rest) = ({ e with
      conn := { e.conn with readTask := task, readSerial := e.conn.readSerial + 1 }
      stack := [⟨socket, rest⟩] }, some d) ∧ d.frame = u ∧ d.serial = e.conn.readSerial := by
  have scanned := e.conn.scan_spec socket (u ++ rest) listening.unfinished
  unfold loop
  cases result : e.conn.scan socket (u ++ rest) with
  | mk conn outcome =>
    rw [result] at scanned
    cases scanned with
    | through task unfinished pending =>
      have cut := task.pending_unfinished unfinished
      rw [pending, listening.nothing, List.nil_append] at cut
      exact absurd cut (whole.not_unfinished rest)
    | stopped task behind finished pending =>
      rw [listening.nothing, List.nil_append] at pending
      obtain ⟨same, rfl⟩ := (task.pending_whole finished).append_inj whole pending
      exact ⟨task, ⟨socket, e.conn.readSerial, task, finished⟩, by simp [listening.idle], same, rfl⟩

theorem listening_reset {e : Endpoint β} :
    ({ e with conn := e.conn.resetRead, stack := [] } : Endpoint β).Listening :=
  ⟨rfl, rfl, rfl⟩

theorem handled_whole {e : Endpoint β} (stack : e.stack = [⟨socket, u ++ rest⟩])
    (whole : Delimited.Whole (frames β) u) :
    ∃ task d, e.handled = some ({ e with
      conn := { e.conn with readTask := task, readSerial := e.conn.readSerial + 1 }
      stack := [⟨socket, rest⟩] }, some d) ∧ d.frame = u ∧ d.serial = e.conn.readSerial := by
  obtain ⟨task, d, looped, same⟩ :=
    loop_whole (e := { e with conn := e.conn.resetRead, stack := [] })
      listening_reset whole socket rest
  refine ⟨task, d, ?_, same⟩
  simp only [handled, stack]
  exact congrArg some looped

theorem handled_last {e : Endpoint β} (stack : e.stack = [⟨socket, []⟩]) :
    e.handled = some ({ e with conn := e.conn.resetRead, stack := [] }, none) := by
  simp only [handled, stack, loop, LocalBusConnection.scan_nil]

end Connection.Endpoint

namespace Link
open Endpoint

theorem after_self (k : Link) (side : Side) (l : Label UInt8) (e : Endpoint UInt8)
    (rest : List UInt8) : (k.after side l e rest).ends side = e := by simp [after]

theorem after_other (k : Link) (side : Side) (l : Label UInt8) (e : Endpoint UInt8)
    (rest : List UInt8) : (k.after side l e rest).ends side.other = k.ends side.other := by
  simp [after]

theorem step_silent {k : Link} {side : Side} {l : Label UInt8} {e : Endpoint UInt8}
    (step : Endpoint.Step (k.ends side) l e) (unread : l.received = [])
    (unwritten : l.written = []) :
    Step k (side, l) { k with ends := Function.update k.ends side e } := by
  have moved : Step k (side, l) (k.after side l e (k.wire side.other)) :=
    .at step (by rw [unread, List.nil_append])
  have wires : (k.after side l e (k.wire side.other)).wire = k.wire := by
    funext s
    rcases Side.eq_or_other s side with rfl | rfl
    · simp [after, unwritten]
    · simp [after]
  rwa [show k.after side l e (k.wire side.other) =
    { k with ends := Function.update k.ends side e } from congrArg (Link.mk _) wires] at moved

/-- What side `a` writes when nothing is under way is read by the other side, up to the end of
the first frame. -/
theorem carry {k : Link} {a : Side} {e : Endpoint UInt8} {socket socket' : SocketId} {n : Nat}
    {u rest : List UInt8} (writes : (k.ends a).output n = (u ++ rest, e))
    (up : (k.ends a).conn.socket = some socket) (registered : (k.ends a).conn.interest.isSome)
    (clear : k.wire a = []) (whole : Delimited.Whole (frames UInt8) u)
    (small : (u ++ rest).length ≤ readBufferSize) (listening : (k.ends a.other).Listening)
    (up' : (k.ends a.other).conn.socket = some socket')
    (registered' : (k.ends a.other).conn.interest.isSome) :
    ∃ k₁ k₂ task d, Step k (a, .wrote socket (u ++ rest)) k₁ ∧
      Step k₁ (a.other, .read socket' false (u ++ rest) (some d)) k₂ ∧ d.frame = u ∧
      d.serial = (k.ends a.other).conn.readSerial ∧
      k₂.ends a = e ∧ k₂.ends a.other = { k.ends a.other with
        conn := { (k.ends a.other).conn with
          readTask := task, readSerial := (k.ends a.other).conn.readSerial + 1 }
        stack := [⟨socket', rest⟩] } ∧
      k₂.wire a = [] ∧ k₂.wire a.other = k.wire a.other := by
  obtain ⟨task, d, looped, frame, serial⟩ := loop_whole listening whole socket' rest
  cases read : (k.ends a.other).loop socket' (u ++ rest) with
  | mk e' dispatch =>
    rw [read] at looped
    obtain ⟨after', rfl⟩ := Prod.mk.inj looped
    have given : u ++ rest ≠ [] := List.append_ne_nil_of_left_ne_nil whole.ne_nil rest
    have wrote : Step k (a, .wrote socket (u ++ rest))
        (k.after a (.wrote socket (u ++ rest)) e (k.wire a.other)) :=
      .at (.wrote up registered writes) rfl
    have arrives := Endpoint.Step.read up' registered' given small read
    rw [listening.idle, List.isEmpty_nil, Bool.not_true] at arrives
    refine ⟨_, after _ a.other (.read socket' false (u ++ rest) (some d)) e' [], task, d, wrote,
      .at ?_ ?_, frame, serial, ?_, ?_, ?_, ?_⟩
    · rwa [after_other]
    · simp [after, clear, Label.written, Label.wroteOn, Label.received]
    · simp [after]
    · rw [after_self, after']
    · simp [after]
    · simp [after, Label.written, Label.wroteOn]

theorem deliver {k : Link} {a : Side} {socket socket' : SocketId} {u : List UInt8}
    (queue : (k.ends a).conn.writeQueue = [⟨u, 0⟩]) (up : (k.ends a).conn.socket = some socket)
    (registered : (k.ends a).conn.interest.isSome) (clear : k.wire a = [])
    (whole : Delimited.Whole (frames UInt8) u) (small : u.length ≤ readBufferSize)
    (listening : (k.ends a.other).Listening) (up' : (k.ends a.other).conn.socket = some socket')
    (registered' : (k.ends a.other).conn.interest.isSome) :
    ∃ k₁ k₂ task d, Step k (a, .wrote socket u) k₁ ∧
      Step k₁ (a.other, .read socket' false u (some d)) k₂ ∧ d.frame = u ∧
      d.serial = (k.ends a.other).conn.readSerial ∧
      k₂.ends a = { k.ends a with conn := { (k.ends a).conn with
        writeQueue := [], interest := (k.ends a).conn.interest.map fun _ => false } } ∧
      k₂.ends a.other = { k.ends a.other with
        conn := { (k.ends a.other).conn with
          readTask := task, readSerial := (k.ends a.other).conn.readSerial + 1 }
        stack := [⟨socket', []⟩] } ∧
      k₂.wire a = [] ∧ k₂.wire a.other = k.wire a.other := by
  have writes := output_all queue
  rw [← List.append_nil u] at writes small
  have carried := carry writes up registered clear whole small listening up' registered'
  rwa [List.append_nil] at carried

end Link
end PBus
