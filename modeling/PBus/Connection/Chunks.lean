import PBus.Connection.Decoding

/-! The input loop of `HandleSocketEvent` with its offset, for handlers that do not run the
poll, and the decoding of a byte stream that arrives cut into reads in any way. -/
namespace PBus.Connection
variable {β : Type} [Cell β]

/-- A decoder for the same stream that sees all of it at once: a length, that many bytes, and
so on. What does not make up a frame is left over. -/
def decode (s : List β) : List (List β) × List β :=
  if 4 ≤ s.length ∧ readU32 s ≤ (s.drop 4).length then
    let (payloads, rest) := decode (s.drop (4 + readU32 s))
    ((s.drop 4).take (readU32 s) :: payloads, rest)
  else ([], s)
termination_by s.length
decreasing_by
  simp only [List.length_drop]
  omega

/-- The copies of one call of `Read` stay inside `SizeBuffer`, `Data` and the bytes given. -/
structure ReadTask.InBounds (t : ReadTask β) (given : List β) : Prop where
  size_source : (t.readSize given).1 ≤ given.length
  size_target : t.sizeBufferOffset + (t.readSize given).1 ≤ t.sizeBuffer.length
  data_source : ((t.readSize given).2.readData (given.drop (t.readSize given).1)).1 ≤
    (given.drop (t.readSize given).1).length
  data_target : (t.readSize given).2.dataOffset +
    ((t.readSize given).2.readData (given.drop (t.readSize given).1)).1 ≤
      (t.readSize given).2.data.length

/-- What `OnIncomingData` does to the connection when it does not run the poll: it may send,
but it reads nothing. -/
structure Handler (β : Type) [Cell β] where
  run : Dispatch β → LocalBusConnection β → LocalBusConnection β
  task : ∀ d c, (run d c).readTask = c.readTask
  serial : ∀ d c, (run d c).readSerial = c.readSerial

/-- The loop between two turns. `reads` are the calls of `ReadTask::Read` so far, each with
the task and the bytes given to it, and `calls` those of `OnIncomingData`. -/
structure Loop (β : Type) [Cell β] where
  conn : LocalBusConnection β
  offset : Nat := 0
  reads : List (ReadTask β × List β) := []
  calls : List (Dispatch β) := []

namespace Loop

/-- The loop once `Read` has used `used` of the bytes `given` and left the task as `task`. -/
def advance (handler : Handler β) (socket : SocketId) (given : List β) (used : Nat)
    (task : ReadTask β) (l : Loop β) : Loop β :=
  let offset := l.offset + used
  let reads := l.reads ++ [(l.conn.readTask, given)]
  if finished : task.finished then
    let call : Dispatch β := ⟨socket, l.conn.readSerial, task, finished⟩
    let conn := handler.run call
      { l.conn with readTask := task, readSerial := l.conn.readSerial + 1 }
    { conn := conn.resetRead, offset, reads, calls := l.calls ++ [call] }
  else { l with conn := { l.conn with readTask := task }, offset, reads }

/-- One turn over the bytes `data` read from `socket`. -/
def turn (handler : Handler β) (socket : SocketId) (data : List β) (l : Loop β) : Loop β :=
  let given := data.drop l.offset
  l.advance handler socket given (l.conn.readTask.read given).1 (l.conn.readTask.read given).2

variable {handler : Handler β} {socket : SocketId} {data : List β} {l : Loop β}

theorem advance_finished {task : ReadTask β} (finished : task.finished = true) :
    l.advance handler socket given used task =
      { conn := (handler.run ⟨socket, l.conn.readSerial, task, finished⟩
          { l.conn with readTask := task, readSerial := l.conn.readSerial + 1 }).resetRead
        offset := l.offset + used
        reads := l.reads ++ [(l.conn.readTask, given)]
        calls := l.calls ++ [⟨socket, l.conn.readSerial, task, finished⟩] } := dif_pos finished

theorem advance_unfinished {task : ReadTask β} (unfinished : task.finished = false) :
    l.advance handler socket given used task = { l with
      conn := { l.conn with readTask := task }
      offset := l.offset + used
      reads := l.reads ++ [(l.conn.readTask, given)] } := dif_neg (by simp [unfinished])

@[simp] theorem advance_offset {task : ReadTask β} :
    (l.advance handler socket given used task).offset = l.offset + used := by
  cases finished : task.finished with
  | true => rw [advance_finished finished]
  | false => rw [advance_unfinished finished]

@[simp] theorem advance_reads {task : ReadTask β} :
    (l.advance handler socket given used task).reads = l.reads ++ [(l.conn.readTask, given)] := by
  cases finished : task.finished with
  | true => rw [advance_finished finished]
  | false => rw [advance_unfinished finished]

/-- The loop, if it ends within so many turns. -/
def run (handler : Handler β) (socket : SocketId) (data : List β) : Nat → Loop β → Option (Loop β)
  | 0, l => if l.offset < data.length then none else some l
  | turns + 1, l =>
    if l.offset < data.length then run handler socket data turns (l.turn handler socket data)
    else some l

end Loop

/-- Every call of `Read` used some of the bytes it was given, no more than those, and copied
inside its buffers. -/
def Loop.Safe (l : Loop β) : Prop :=
  ∀ call ∈ l.reads, 0 < (call.1.read call.2).1 ∧ (call.1.read call.2).1 ≤ call.2.length ∧
    call.1.InBounds call.2

/-- `HandleSocketEvent` for `EventInput`, once for each of the reads: the end of every loop,
and the connection after the last. There is no result if a read brings no bytes, where the
function throws, or if a loop does not end within as many turns as it has bytes. -/
def readAll (handler : Handler β) (socket : SocketId) :
    List (List β) → LocalBusConnection β → Option (List (Loop β) × LocalBusConnection β)
  | [], c => some ([], c)
  | data :: rest, c =>
    if data = [] then none
    else
      match Loop.run handler socket data data.length { conn := c } with
      | none => none
      | some l => (readAll handler socket rest l.conn).map fun (loops, c) => (l :: loops, c)

/-- The serials and payloads given to `OnIncomingData`. -/
def dispatched (loops : List (Loop β)) : List (UInt32 × List β) :=
  loops.flatMap fun l => l.calls.map fun d => (d.serial, d.payload)

theorem ReadTask.inBounds (t : ReadTask β) (given : List β) : t.InBounds given := by
  have size := t.readSize_used given
  have bound := t.size_bound
  have payload := (t.readSize given).2.readData_used (given.drop (t.readSize given).1)
  have data := (t.readSize given).2.data_bound
  constructor
  case size_source => omega
  case size_target =>
    rw [t.size_length]
    omega
  case data_source => omega
  case data_target => omega

theorem frame_length {u : List β} (whole : Delimited.Whole (frames β) u) :
    4 ≤ u.length ∧ u.length = 4 + readU32 u := by
  simp only [Delimited.Whole, frames] at whole
  split at whole <;> rename_i header
  · exact ⟨header, (Option.some.inj whole).symm⟩
  · contradiction

theorem decode_whole {u : List β} (whole : Delimited.Whole (frames β) u) (s : List β) :
    decode (u ++ s) = (u.drop 4 :: (decode s).1, (decode s).2) := by
  obtain ⟨header, length⟩ := frame_length whole
  have size : readU32 (u ++ s) = readU32 u := readU32_append header s
  have fits : 4 ≤ (u ++ s).length ∧ readU32 (u ++ s) ≤ ((u ++ s).drop 4).length := by
    simp only [List.length_drop, List.length_append, size]
    omega
  have payload : ((u ++ s).drop 4).take (readU32 u) = u.drop 4 := by
    rw [List.drop_append_of_le_length header]
    exact List.take_left' (by rw [List.length_drop]; omega)
  rw [decode, if_pos fits, size, payload, ← length, List.drop_left]

theorem decode_partial {s : List β} (unfinished : Delimited.Partial (frames β) s) :
    decode s = ([], s) := by
  rw [decode, if_neg]
  rintro ⟨header, fits⟩
  have short := unfinished (4 + readU32 s) (if_pos header)
  rw [List.length_drop] at fits
  omega

theorem decode_frames {us : List (List β)} {rest : List β}
    (whole : ∀ u ∈ us, Delimited.Whole (frames β) u)
    (unfinished : Delimited.Partial (frames β) rest) :
    decode (us.flatten ++ rest) = (us.map (List.drop 4), rest) := by
  induction us with
  | nil => exact decode_partial unfinished
  | cons u us ih =>
    have tail := ih fun v hv => whole v (List.mem_cons_of_mem _ hv)
    rw [List.flatten_cons, List.append_assoc, decode_whole (whole u List.mem_cons_self), tail]
    rfl

omit [Cell β] in
theorem numberedFrom_map (n : UInt32) (us : List (List β)) (f : List β → List β) :
    (numberedFrom n us).map (fun x => (x.1, f x.2)) = numberedFrom n (us.map f) :=
  List.ext_getElem (by simp [numberedFrom]) (by simp [numberedFrom])

/-- Of the bytes read since `first` was the next serial, the frames in `calls` have been
handed over, and the rest is in the half-read frame. -/
structure Decoded (first : UInt32) (bytes : List β) (calls : List (Dispatch β))
    (c : LocalBusConnection β) : Prop where
  unfinished : c.readTask.finished = false
  joined : bytes = (calls.map Dispatch.frame).flatten ++ c.readTask.pending
  serials : calls.map (fun d => (d.serial, d.frame)) =
    numberedFrom first (calls.map Dispatch.frame)
  next : c.readSerial = first + UInt32.ofNat calls.length

namespace Decoded
variable {handler : Handler β} {socket : SocketId} {data : List β}

theorem numbered_call {calls : List (Dispatch β)} {call : Dispatch β}
    (serials : calls.map (fun d => (d.serial, d.frame)) =
      numberedFrom first (calls.map Dispatch.frame))
    (serial : call.serial = first + UInt32.ofNat calls.length) :
    (calls ++ [call]).map (fun d => (d.serial, d.frame)) =
      numberedFrom first ((calls ++ [call]).map Dispatch.frame) := by
  simp only [List.map_append, List.map_cons, List.map_nil, numberedFrom_concat, serials, serial,
    List.length_map]

theorem fresh (c : LocalBusConnection β) (new : c.readTask = .new) :
    Decoded c.readSerial [] [] c where
  unfinished := by rw [new]; rfl
  joined := by simp [new]
  serials := rfl
  next := by simp

theorem decode_eq {c : LocalBusConnection β} (d : Decoded first bytes calls c) :
    (calls.map (fun d => (d.serial, d.payload)), c.readTask.pending) =
      (numberedFrom first (decode bytes).1, (decode bytes).2) := by
  have whole : ∀ u ∈ calls.map Dispatch.frame, Delimited.Whole (frames β) u := by
    intro u hu
    obtain ⟨call, _, rfl⟩ := List.mem_map.mp hu
    exact call.task.pending_whole call.finished
  have payloads : calls.map (fun d => (d.serial, d.payload)) =
      (calls.map fun d => (d.serial, d.frame)).map fun x => (x.1, x.2.drop 4) := by
    simp [Dispatch.payload_eq]
  rw [d.joined, decode_frames whole (ReadTask.pending_unfinished _ d.unfinished), payloads,
    d.serials]
  rw [numberedFrom_map, List.map_map]

theorem read {l : Loop β} {task : ReadTask β} (d : Decoded first bytes (calls ++ l.calls) l.conn)
    (pending : task.pending = l.conn.readTask.pending ++ taken) :
    Decoded first (bytes ++ taken) (calls ++ (l.advance handler socket given used task).calls)
      (l.advance handler socket given used task).conn := by
  have joined : bytes ++ taken =
      ((calls ++ l.calls).map Dispatch.frame).flatten ++ task.pending := by
    rw [pending, ← List.append_assoc, ← d.joined]
  cases finished : task.finished with
  | true =>
    rw [Loop.advance_finished finished, ← List.append_assoc]
    constructor
    case unfinished => rfl
    case joined => simp [joined, LocalBusConnection.resetRead, Dispatch.frame]
    case serials => exact numbered_call d.serials d.next
    case next =>
      have counted : l.conn.readSerial + 1 =
          first + UInt32.ofNat ((calls ++ l.calls).length + 1) := by
        rw [UInt32.ofNat_add, ← UInt32.add_assoc, ← d.next]
        rfl
      rw [List.length_append, List.length_singleton, ← counted]
      exact handler.serial _ _
  | false =>
    rw [Loop.advance_unfinished finished]
    constructor
    case unfinished => exact finished
    case joined => exact joined
    case serials => exact d.serials
    case next => exact d.next

theorem given {l : Loop β} (d : Decoded first bytes calls l.conn) (more : l.offset < data.length) :
    0 < (l.conn.readTask.read (data.drop l.offset)).1 ∧
      (l.conn.readTask.read (data.drop l.offset)).1 ≤ (data.drop l.offset).length := by
  refine ⟨l.conn.readTask.read_used_pos _ d.unfinished ?_, l.conn.readTask.read_used_le _⟩
  rw [ne_eq, List.drop_eq_nil_iff]
  omega

theorem run {l : Loop β} (d : Decoded first (bytes ++ data.take l.offset) (calls ++ l.calls) l.conn)
    (inside : l.offset ≤ data.length) (safe : l.Safe) (enough : data.length ≤ l.offset + turns) :
    ∃ l', Loop.run handler socket data turns l = some l' ∧ l'.offset = data.length ∧ l'.Safe ∧
      Decoded first (bytes ++ data) (calls ++ l'.calls) l'.conn := by
  induction turns generalizing l with
  | zero =>
    have done : l.offset = data.length := by omega
    rw [done, List.take_length] at d
    exact ⟨l, by rw [Loop.run, if_neg (by omega)], done, safe, d⟩
  | succ turns ih =>
    by_cases more : l.offset < data.length
    · obtain ⟨some', all⟩ := d.given more
      have next : Decoded first (bytes ++ data.take (l.turn handler socket data).offset)
          (calls ++ (l.turn handler socket data).calls) (l.turn handler socket data).conn := by
        rw [Loop.turn, Loop.advance_offset, List.take_add, ← List.append_assoc]
        exact d.read (l.conn.readTask.pending_read _)
      have nextSafe : (l.turn handler socket data).Safe := by
        intro call hcall
        rw [Loop.turn, Loop.advance_reads] at hcall
        rcases List.mem_append.mp hcall with earlier | this'
        · exact safe call earlier
        · obtain rfl := List.mem_singleton.mp this'
          exact ⟨some', all, ReadTask.inBounds _ _⟩
      have offset : (l.turn handler socket data).offset =
          l.offset + (l.conn.readTask.read (data.drop l.offset)).1 := Loop.advance_offset
      rw [List.length_drop] at all
      rw [Loop.run, if_pos more]
      exact ih next (by omega) nextSafe (by omega)
    · have done : l.offset = data.length := by omega
      rw [done, List.take_length] at d
      exact ⟨l, by rw [Loop.run, if_neg more], done, safe, d⟩

/-- Every loop ends, and the reads together are decoded. -/
theorem readAll {c : LocalBusConnection β} (d : Decoded first bytes calls c)
    {reads : List (List β)} (given : ∀ data ∈ reads, data ≠ []) :
    ∃ loops c', readAll handler socket reads c = some (loops, c') ∧
      List.Forall₂ (fun data l => l.offset = data.length ∧ l.Safe) reads loops ∧
      Decoded first (bytes ++ reads.flatten) (calls ++ loops.flatMap Loop.calls) c' := by
  induction reads generalizing bytes calls c with
  | nil => exact ⟨[], c, rfl, .nil, by simpa using d⟩
  | cons data rest ih =>
    have start : Decoded first (bytes ++ data.take 0) (calls ++ []) c := by simpa using d
    obtain ⟨l, ran, offset, safe, decoded⟩ : ∃ l, Loop.run handler socket data data.length
        { conn := c } = some l ∧ l.offset = data.length ∧ l.Safe ∧
          Decoded first (bytes ++ data) (calls ++ l.calls) l.conn :=
      start.run (l := { conn := c }) (Nat.zero_le _) (by simp [Loop.Safe]) (by simp)
    obtain ⟨loops, c', read, each, all⟩ :=
      ih decoded fun r hr => given r (List.mem_cons_of_mem _ hr)
    refine ⟨l :: loops, c', ?_, .cons ⟨offset, safe⟩ each, by simpa using all⟩
    simp [Connection.readAll, given data List.mem_cons_self, ran, read]

end Decoded

/-- A handler that leaves the connection alone. -/
def Handler.silent : Handler β where
  run _ c := c
  task _ _ := rfl
  serial _ _ := rfl

theorem Endpoint.loop_turn (e : Endpoint β) (socket : SocketId) {given : List β} (h : given ≠ []) :
    e.loop socket given =
      if finished : (e.conn.readTask.read given).2.finished then
        ({ e with
            conn := { e.conn with
              readTask := (e.conn.readTask.read given).2, readSerial := e.conn.readSerial + 1 }
            stack := ⟨socket, given.drop (e.conn.readTask.read given).1⟩ :: e.stack },
          some ⟨socket, e.conn.readSerial, (e.conn.readTask.read given).2, finished⟩)
      else ({ e with conn.readTask := (e.conn.readTask.read given).2 }, none) := by
  rw [loop, LocalBusConnection.scan, if_neg h]
  by_cases finished : (e.conn.readTask.read given).2.finished = true
  · rw [dif_pos finished, dif_pos finished]
  · have all := e.conn.readTask.read_unfinished given (by simpa using finished)
    rw [dif_neg finished, dif_neg finished, all, List.drop_length, LocalBusConnection.scan_nil]

open Transition in
/-- Where every handler returns at once, an endpoint that reads goes through the loop: one
`handled` for each call of `OnIncomingData`. -/
theorem Endpoint.loop_run {l l' : Loop β} (e : Endpoint β)
    (ran : Loop.run .silent socket data turns l = some l') :
    ∃ hist, Reaches Step ({ e with conn := l.conn }.loop socket (data.drop l.offset)).1 hist
        { e with conn := l'.conn } ∧
      (∀ x ∈ hist, ∃ dispatch, x = .handled dispatch) ∧
      l'.calls = l.calls ++
        (({ e with conn := l.conn }.loop socket (data.drop l.offset)).2.toList ++
          hist.flatMap Label.dispatched) := by
  have ended (l : Loop β) (done : ¬ l.offset < data.length) :
      { e with conn := l.conn }.loop socket (data.drop l.offset) =
        ({ e with conn := l.conn }, none) := by
    rw [List.drop_eq_nil_of_le (by omega), loop, LocalBusConnection.scan_nil]
  induction turns generalizing l with
  | zero =>
    simp only [Loop.run, Option.ite_none_left_eq_some, Option.some.injEq] at ran
    obtain ⟨done, rfl⟩ := ran
    exact ⟨[], by rw [ended l done]; exact .refl _, by simp, by simp [ended l done]⟩
  | succ turns ih =>
    by_cases more : l.offset < data.length
    · have given : data.drop l.offset ≠ [] := by
        rw [ne_eq, List.drop_eq_nil_iff]
        omega
      rw [Loop.run, if_pos more] at ran
      obtain ⟨hist, tail, handled, calls⟩ := ih ran
      rw [Loop.turn, Loop.advance_offset, ← List.drop_drop] at tail calls
      have first := loop_turn { e with conn := l.conn } socket given
      cases finished : (l.conn.readTask.read (data.drop l.offset)).2.finished with
      | true =>
        rw [Loop.advance_finished finished] at tail calls
        rw [first, dif_pos finished]
        refine ⟨_ :: hist, .next (.handled rfl) tail, ?_, ?_⟩
        · rintro x (_ | ⟨_, hx⟩)
          · exact ⟨_, rfl⟩
          · exact handled x hx
        · rw [calls, List.flatMap_cons, List.append_assoc]
          rfl
      | false =>
        have all := l.conn.readTask.read_unfinished _ finished
        rw [Loop.advance_unfinished finished, all, List.drop_length] at tail calls
        simp only [loop, LocalBusConnection.scan_nil] at tail calls
        rw [first, dif_neg (by simp [finished])]
        exact ⟨hist, tail, handled, calls⟩
    · simp only [Loop.run, if_neg more, Option.some.injEq] at ran
      subst ran
      exact ⟨[], by rw [ended l more]; exact .refl _, by simp, by simp [ended l more]⟩

/-- Decoding does not depend on how the bytes were cut: the loop over each read ends behind
its last byte, every call of `Read` is safe, and the frames handed over and the half-read
frame are those of the whole stream. -/
theorem decoded_whatever_the_cuts (handler : Handler β) (socket : SocketId)
    (c : LocalBusConnection β) (new : c.readTask = .new) (reads : List (List β))
    (given : ∀ data ∈ reads, data ≠ []) :
    ∃ loops c', readAll handler socket reads c = some (loops, c') ∧
      List.Forall₂ (fun data l => l.offset = data.length ∧ l.Safe) reads loops ∧
      (dispatched loops, c'.readTask.pending) =
        (numberedFrom c.readSerial (decode reads.flatten).1, (decode reads.flatten).2) ∧
      ∀ reads', (∀ data ∈ reads', data ≠ []) → reads'.flatten = reads.flatten →
        ∃ loops' c'', readAll handler socket reads' c = some (loops', c'') ∧
          dispatched loops' = dispatched loops ∧ c''.readTask.pending = c'.readTask.pending := by
  have result {reads : List (List β)} (given : ∀ data ∈ reads, data ≠ []) : ∃ loops c',
      readAll handler socket reads c = some (loops, c') ∧
      List.Forall₂ (fun data l => l.offset = data.length ∧ l.Safe) reads loops ∧
      (dispatched loops, c'.readTask.pending) =
        (numberedFrom c.readSerial (decode reads.flatten).1, (decode reads.flatten).2) := by
    obtain ⟨loops, c', read, each, decoded⟩ := (Decoded.fresh c new).readAll given
    refine ⟨loops, c', read, each, ?_⟩
    rw [dispatched, ← List.map_flatMap]
    exact decoded.decode_eq
  obtain ⟨loops, c', read, each, decoded⟩ := result given
  refine ⟨loops, c', read, each, decoded, fun reads' given' same => ?_⟩
  obtain ⟨loops', c'', read', _, decoded'⟩ := result given'
  rw [same, ← decoded, Prod.mk.injEq] at decoded'
  exact ⟨loops', c'', read', decoded'⟩

/-- Two frames, one of them empty, and the beginning of a third, in three reads. -/
theorem decoded_three_reads :
    ∃ loops c', readAll .silent 0 [[1, 0, 0], [0, 7, 0, 0, 0], [0, 2, 0, 0, 0, 9]]
        (.accept ⟨['a'], 1⟩ 0 : LocalBusConnection UInt8) = some (loops, c') ∧
      dispatched loops = [(0, [7]), (1, [])] ∧ c'.readTask.pending = [2, 0, 0, 0, 9] := by
  obtain ⟨loops, c', read, _, decoded, _⟩ := decoded_whatever_the_cuts .silent 0
    (.accept ⟨['a'], 1⟩ 0 : LocalBusConnection UInt8) rfl
    [[1, 0, 0], [0, 7, 0, 0, 0], [0, 2, 0, 0, 0, 9]] (by decide)
  have reference : decode [1, 0, 0, 0, 7, 0, 0, 0, 0, 2, 0, 0, 0, (9 : UInt8)] =
      ([[7], []], [2, 0, 0, 0, 9]) := by decide +kernel
  have joined : [[1, 0, 0], [0, 7, 0, 0, 0], [0, 2, 0, 0, 0, (9 : UInt8)]].flatten =
      [1, 0, 0, 0, 7, 0, 0, 0, 0, 2, 0, 0, 0, 9] := rfl
  rw [joined, reference, Prod.mk.injEq] at decoded
  exact ⟨loops, c', read, decoded⟩

end PBus.Connection
