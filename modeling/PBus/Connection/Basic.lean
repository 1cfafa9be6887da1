import PBus.ClassId
import PBus.Connection.Tasks

/-! `LocalBusConnection`: its state and what its methods do to it. The mutex is left out
(one thread runs the poll) and so is the log. A socket is the number of its creation. -/
namespace PBus.Connection

abbrev SocketId := Nat

/-- `interest` is the entry of `_socket` in the poll: absent while the socket is not
registered, else whether `EventOutput` is requested besides `DefaultEvents`. -/
@[ext] structure LocalBusConnection (β : Type) [Cell β] where
  serviceId : ServiceId
  socket : Option SocketId := none
  interest : Option Bool := none
  writeSerial : UInt32 := 0
  readSerial : UInt32 := 0
  writeQueue : List (WriteTask β) := []
  readTask : ReadTask β := .new

/-- `LocalBusConnection::ReadBufferSize`. -/
def readBufferSize : Nat := 128 * 1024

/-- A call of `OnIncomingData`: the socket its frame was read from, the serial, and the
finished `_readTask`. -/
structure Dispatch (β : Type) [Cell β] where
  socket : SocketId
  serial : UInt32
  task : ReadTask β
  finished : task.finished = true

def Dispatch.payload {β : Type} [Cell β] (d : Dispatch β) : List β := d.task.data

def Dispatch.frame {β : Type} [Cell β] (d : Dispatch β) : List β := d.task.pending

theorem Dispatch.payload_eq {β : Type} [Cell β] (d : Dispatch β) : d.payload = d.frame.drop 4 :=
  d.task.data_eq d.finished

/-- How `Connect` ends: the socket it makes, and whether it gets as far as `Poll::Add`. -/
structure Attempt where
  socket : SocketId
  connects : Bool

namespace LocalBusConnection
variable {β : Type} [Cell β]

/-- `LocalBusConnection(serviceId)`. -/
def create (serviceId : ServiceId) : LocalBusConnection β := { serviceId }

/-- `LocalBusConnection(serviceId, socket)`, for a socket that was accepted. -/
def accept (serviceId : ServiceId) (socket : SocketId) : LocalBusConnection β :=
  { serviceId, socket := some socket, interest := some false }

/-- The part of `Connect` before anything can fail: `_socket = std::make_shared<Socket>()`. -/
def openSocket (c : LocalBusConnection β) (socket : SocketId) : LocalBusConnection β :=
  { c with socket := some socket }

/-- The end of `Connect`: `_poll.Add(*_socket, *this, DefaultEvents)`. -/
def register (c : LocalBusConnection β) : LocalBusConnection β := { c with interest := some false }

/-- `Connect`. A connection that fails after the socket was made keeps it, unregistered. -/
def connect (c : LocalBusConnection β) (a : Attempt) : LocalBusConnection β × Bool :=
  match c.socket with
  | some _ => (c, true)
  | none =>
    let c := c.openSocket a.socket
    if a.connects then (c.register, true) else (c, false)

/-- `EnableWrite`. `Poll::Modify` throws for a socket that is not registered. -/
def enableWrite (c : LocalBusConnection β) (enable : Bool) : Option (LocalBusConnection β) :=
  match c.interest with
  | some _ => some { c with interest := some enable }
  | none => none

/-- The part of `Send` after `Connect`; nothing is returned if it throws. -/
def enqueue (c : LocalBusConnection β) (data : List β) :
    LocalBusConnection β × Option UInt32 :=
  match c.enableWrite true with
  | some c =>
    ({ c with writeQueue := c.writeQueue ++ [⟨data, 0⟩], writeSerial := c.writeSerial + 1 },
      some c.writeSerial)
  | none => (c, none)

/-- `Send`, with the outcome `a` of connecting should that be needed. -/
def send (c : LocalBusConnection β) (data : List β) (a : Attempt) :
    LocalBusConnection β × Option UInt32 :=
  match c.connect a with
  | (c, true) => c.enqueue data
  | (c, false) => (c, none)

/-- `HandleSocketEvent` for a hang-up or an error. -/
def hangup (c : LocalBusConnection β) : LocalBusConnection β :=
  { c with socket := none, interest := none }

/-- The front of the queue when the socket takes at most `n` bytes of it: what is written,
and the queue after it. -/
def writeFront (n : Nat) : List (WriteTask β) → List β × List (WriteTask β)
  | [] => ([], [])
  | task :: rest =>
    let buffer := task.getBuffer.take n
    let task := task.complete buffer.length
    (buffer, if task.finished then rest else task :: rest)

/-- `HandleSocketEvent` for `EventOutput`: the bytes written and the connection after them. -/
def output (c : LocalBusConnection β) (n : Nat) : List β × LocalBusConnection β :=
  let (written, queue) := writeFront n c.writeQueue
  let c := { c with writeQueue := queue }
  (written, if queue.isEmpty then (c.enableWrite false).getD c else c)

/-- The `while` loop of `HandleSocketEvent` for `EventInput` over what is left of the bytes
read from `socket`, up to the next call of `OnIncomingData`: that call and the bytes left
behind it, or nothing if the loop ends without one. -/
def scan (c : LocalBusConnection β) (socket : SocketId) (data : List β) :
    LocalBusConnection β × Option (Dispatch β × List β) :=
  if data = [] then (c, none)
  else
    let used := (c.readTask.read data).1
    let task := (c.readTask.read data).2
    if _finished : task.finished then
      ({ c with readTask := task, readSerial := c.readSerial + 1 },
        some (⟨socket, c.readSerial, task, _finished⟩, data.drop used))
    else scan { c with readTask := task } socket (data.drop used)
termination_by data.length
decreasing_by
  rename_i given
  have all := c.readTask.read_unfinished data (by simpa using _finished)
  have := List.length_pos_iff.mpr given
  simp only [List.length_drop, all]
  omega

/-- What follows a call of `OnIncomingData`, whether it returned or threw. -/
def resetRead (c : LocalBusConnection β) : LocalBusConnection β := { c with readTask := .new }

/-- What the loop can do to an unfinished frame: use up the bytes without completing it, or
complete it and stop behind it. -/
inductive Scanned (c : LocalBusConnection β) (socket : SocketId) (data : List β) :
    LocalBusConnection β × Option (Dispatch β × List β) → Prop where
  | through (task : ReadTask β) : task.finished = false →
      task.pending = c.readTask.pending ++ data →
      Scanned c socket data ({ c with readTask := task }, none)
  | stopped (task : ReadTask β) (rest : List β) (finished : task.finished = true) :
      task.pending ++ rest = c.readTask.pending ++ data →
      Scanned c socket data ({ c with readTask := task, readSerial := c.readSerial + 1 },
        some (⟨socket, c.readSerial, task, finished⟩, rest))

theorem scan_nil (c : LocalBusConnection β) (socket : SocketId) : c.scan socket [] = (c, none) := by
  rw [scan, if_pos rfl]

theorem scan_spec (c : LocalBusConnection β) (socket : SocketId) (data : List β)
    (h : c.readTask.finished = false) : Scanned c socket data (c.scan socket data) := by
  by_cases given : data = []
  · subst given
    rw [scan_nil]
    exact .through _ h (by simp)
  · have pending := c.readTask.pending_read data
    rw [scan, if_neg given]
    by_cases finished : (c.readTask.read data).2.finished = true
    · rw [dif_pos finished]
      refine .stopped _ _ finished ?_
      rw [pending, List.append_assoc, List.take_append_drop]
    · have all := c.readTask.read_unfinished data (by simpa using finished)
      rw [dif_neg finished, all, List.drop_length, scan_nil]
      refine .through _ (by simpa using finished) ?_
      rw [pending, all, List.take_length]

/-- With a finished task still in place the loop hands the same frame over again and uses
nothing of its bytes. -/
theorem scan_finished (c : LocalBusConnection β) (socket : SocketId) (data : List β)
    (h : c.readTask.finished = true) (given : data ≠ []) :
    c.scan socket data = ({ c with readSerial := c.readSerial + 1 },
      some (⟨socket, c.readSerial, c.readTask, h⟩, data)) := by
  rw [scan, if_neg given]
  simp only [c.readTask.read_finished data h, h, dif_pos, List.drop_zero]

theorem scan_frame (c : LocalBusConnection β) (socket : SocketId) (data : List β) :
    ∃ task serial, (c.scan socket data).1 = { c with readTask := task, readSerial := serial } := by
  cases finished : c.readTask.finished with
  | true =>
    by_cases given : data = []
    · exact ⟨c.readTask, c.readSerial, by rw [given, scan_nil]⟩
    · exact ⟨c.readTask, c.readSerial + 1, by rw [c.scan_finished socket data finished given]⟩
  | false =>
    have scanned := c.scan_spec socket data finished
    generalize c.scan socket data = outcome at scanned
    cases scanned with
    | through task => exact ⟨task, c.readSerial, rfl⟩
    | stopped task rest => exact ⟨task, c.readSerial + 1, rfl⟩

def queued (c : LocalBusConnection β) : List β := c.writeQueue.flatMap WriteTask.getBuffer

/-- The front task, if there is one, has not been begun. -/
def atBoundary (c : LocalBusConnection β) : Bool := c.writeQueue.head?.all fun t => t.offset == 0

theorem enableWrite_registered {c : LocalBusConnection β} (h : c.interest.isSome) (enable : Bool) :
    c.enableWrite enable = some { c with interest := some enable } := by
  obtain ⟨w, hw⟩ := Option.isSome_iff_exists.mp h
  simp [enableWrite, hw]

theorem enqueue_registered {c : LocalBusConnection β} (h : c.interest.isSome) (data : List β) :
    c.enqueue data = ({ c with
      interest := some true, writeQueue := c.writeQueue ++ [⟨data, 0⟩],
      writeSerial := c.writeSerial + 1 }, some c.writeSerial) := by
  simp [enqueue, enableWrite_registered h]

theorem enqueue_unregistered {c : LocalBusConnection β} (h : c.interest = none) (data : List β) :
    c.enqueue data = (c, none) := by
  simp [enqueue, enableWrite, h]

theorem send_connected {c : LocalBusConnection β} (h : c.socket = some s) (data : List β)
    (a : Attempt) : c.send data a = c.enqueue data := by
  simp [send, connect, h]

theorem send_connects {c : LocalBusConnection β} (h : c.socket = none) (data : List β)
    (a : Attempt) (connects : a.connects = true) :
    c.send data a = (c.openSocket a.socket).register.enqueue data := by
  simp [send, connect, h, connects]

theorem send_fails {c : LocalBusConnection β} (h : c.socket = none) (data : List β)
    (a : Attempt) (fails : a.connects = false) :
    c.send data a = (c.openSocket a.socket, none) := by
  simp [send, connect, h, fails]

theorem output_eq (c : LocalBusConnection β) (n : Nat) :
    c.output n = ((writeFront n c.writeQueue).1, { c with
      writeQueue := (writeFront n c.writeQueue).2
      interest := if (writeFront n c.writeQueue).2 = [] then c.interest.map fun _ => false
        else c.interest }) := by
  simp only [output, List.isEmpty_iff, enableWrite]
  split
  · cases c.interest <;> rfl
  · rfl

omit [Cell β] in
theorem writeFront_bytes (n : Nat) (queue : List (WriteTask β)) :
    (writeFront n queue).1 ++ (writeFront n queue).2.flatMap WriteTask.getBuffer =
      queue.flatMap WriteTask.getBuffer := by
  cases queue with
  | nil => rfl
  | cons task rest =>
    have split : task.getBuffer.take n ++
        (task.complete (task.getBuffer.take n).length).getBuffer = task.getBuffer := by
      rw [WriteTask.getBuffer_complete, List.length_take]
      rcases Nat.le_total n task.getBuffer.length with le | le
      · rw [Nat.min_eq_left le, List.take_append_drop]
      · rw [Nat.min_eq_right le, List.take_of_length_le le, List.drop_length, List.append_nil]
    simp only [writeFront, List.flatMap_cons]
    split <;> rename_i finished
    · rw [WriteTask.getBuffer_finished _ finished, List.append_nil] at split
      rw [split]
    · rw [List.flatMap_cons, ← List.append_assoc, split]

omit [Cell β] in
theorem writeFront_tasks (n : Nat) (queue : List (WriteTask β)) :
    (writeFront n queue).2 = queue.tail ∨
      ∃ task rest, queue = task :: rest ∧
        (writeFront n queue).2 = task.complete (task.getBuffer.take n).length :: rest := by
  cases queue with
  | nil => exact .inl rfl
  | cons task rest =>
    simp only [writeFront, List.tail_cons]
    split
    · exact .inl rfl
    · exact .inr ⟨task, rest, rfl, rfl⟩

omit [Cell β] in
theorem writeFront_data (n : Nat) (queue : List (WriteTask β)) :
    ∃ k ≤ queue.length, (writeFront n queue).2.map WriteTask.data =
      (queue.map WriteTask.data).drop k := by
  rcases writeFront_tasks n queue with tail | ⟨task, rest, rfl, advanced⟩
  · cases queue with
    | nil => exact ⟨0, Nat.le_refl 0, by simp [tail]⟩
    | cons task rest => exact ⟨1, by simp, by simp [tail]⟩
  · exact ⟨0, Nat.zero_le _, by simp [advanced, WriteTask.complete]⟩

omit [Cell β] in
theorem writeFront_waiting (n : Nat) {queue : List (WriteTask β)}
    (waiting : ∀ t ∈ queue.tail, t.offset = 0) :
    ∀ t ∈ (writeFront n queue).2.tail, t.offset = 0 := by
  rcases writeFront_tasks n queue with tail | ⟨task, rest, rfl, advanced⟩
  · intro t ht
    rw [tail] at ht
    exact waiting t (List.mem_of_mem_tail ht)
  · simpa [advanced] using waiting

omit [Cell β] in
theorem queued_unbegun {queue : List (WriteTask β)} (unbegun : ∀ t ∈ queue, t.offset = 0) :
    queue.flatMap WriteTask.getBuffer = (queue.map WriteTask.data).flatten := by
  rw [List.flatMap_def]
  congr 1
  exact List.map_congr_left fun t ht => by simp [WriteTask.getBuffer, unbegun t ht]

end LocalBusConnection
end PBus.Connection
