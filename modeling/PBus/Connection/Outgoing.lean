import PBus.Connection.Endpoint
import PBus.Foundation.Transition

/-! What a connection writes on each of its sockets. The queue survives a hang-up and so
does the offset of its front task; a stream starts with a frame if the hang-up before it
found no frame partly written. -/
namespace PBus.Connection
open Transition
variable {β : Type} [Cell β]

theorem sentFrames_append (past : List (Label β)) (l : Label β) :
    sentFrames (past ++ [l]) = sentFrames past ++ l.sentData := by simp [sentFrames]

theorem bytesWritten_append (past : List (Label β)) (l : Label β) :
    bytesWritten (past ++ [l]) = bytesWritten past ++ l.wroteOn.toList.flatMap Prod.snd := by
  simp only [bytesWritten, List.filterMap_append, List.flatMap_append, List.filterMap_cons,
    List.filterMap_nil]
  cases l.wroteOn <;> rfl

/-- Over all sockets together: what was written and what is queued are the frames that were
sent, and `Send` gave them the serials 0, 1, 2, and so on. -/
structure Outflow (hist : List (Label β)) (e : Endpoint β) : Prop where
  bytes : bytesWritten hist ++ e.conn.queued = (sentFrames hist).flatten
  serials : sends hist = numbered (sentFrames hist)
  next : e.conn.writeSerial = UInt32.ofNat (sentFrames hist).length

theorem Outflow.unsent {past : List (Label β)} {e e' : Endpoint β} {l : Label β}
    (flow : Outflow past e) (unsent : l.sentData = [])
    (queue : l.wroteOn.toList.flatMap Prod.snd ++ e'.conn.queued = e.conn.queued)
    (serial : e'.conn.writeSerial = e.conn.writeSerial) : Outflow (past ++ [l]) e' := by
  have frames : sentFrames (past ++ [l]) = sentFrames past := by
    rw [sentFrames_append, unsent, List.append_nil]
  have calls : sends (past ++ [l]) = sends past := by
    cases l <;> simp_all [sends, Label.sentData, Label.sentCall]
  constructor
  case bytes => rw [bytesWritten_append, List.append_assoc, queue, frames, flow.bytes]
  case serials => rw [calls, frames, flow.serials]
  case next => rw [serial, frames, flow.next]

theorem Outflow.step {past : List (Label β)} {e e' : Endpoint β} {l : Label β}
    (flow : Outflow past e) (step : Endpoint.Step e l e') : Outflow (past ++ [l]) e' := by
  cases step.writes with
  | @sent socket data opens =>
    have frames : sentFrames (past ++ [.sent e.conn.writeSerial data]) =
        sentFrames past ++ [data] := sentFrames_append _ _
    constructor
    case bytes =>
      rw [bytesWritten_append, frames, List.flatten_append, ← flow.bytes]
      simp [Label.wroteOn, LocalBusConnection.queued, WriteTask.getBuffer]
    case serials =>
      rw [frames, numbered_concat, ← flow.serials, ← flow.next]
      simp [sends, Label.sentCall]
    case next =>
      rw [frames]
      simp [flow.next]
  | @wrote socket n up =>
    have bytes := LocalBusConnection.writeFront_bytes n e.conn.writeQueue
    apply flow.unsent rfl
    · rw [LocalBusConnection.queued, LocalBusConnection.queued, ← bytes]
      simp [Label.wroteOn, LocalBusConnection.output_eq]
    · rw [LocalBusConnection.output_eq]
  | refused | hungUp => exact flow.unsent rfl rfl rfl
  | reading task serial stack unsent unwritten =>
    refine flow.unsent unsent ?_ rfl
    rw [unwritten]
    rfl

theorem Outflow.run {start e : Endpoint β} {hist : List (Label β)}
    (started : Endpoint.Started start) (run : Reaches Endpoint.Step start hist e) :
    Outflow hist e :=
  run.history Outflow.step (by cases started <;> exact ⟨rfl, rfl, rfl⟩)

/-- The bytes written on the socket are frames `Send` was given, whole and one behind the
other, the last maybe cut. -/
def FramedOn (socket : SocketId) (hist : List (Label β)) : Prop :=
  ∃ us, us <:+: sentFrames hist ∧ (∀ u ∈ us, Delimited.Whole (frames β) u) ∧
    writtenOn socket hist <+: us.flatten

/-- A new socket does not find the front of the queue partly written. -/
def Outgoing.Unbroken (e : Endpoint β) : Label β → Prop
  | .sent _ _ => e.conn.socket = none → e.conn.atBoundary = true
  | _ => True

/-- `Send` is given whole frames, and no new socket finds a frame partly written. -/
def Outgoing.Clean (_past : List (Label β)) (e : Endpoint β) (l : Label β) : Prop :=
  (∀ u ∈ l.sentData, Delimited.Whole (frames β) u) ∧ Outgoing.Unbroken e l

instance Outgoing.decidableUnbroken (e : Endpoint β) (l : Label β) :
    Decidable (Outgoing.Unbroken e l) :=
  match l with
  | .sent _ _ =>
    inferInstanceAs (Decidable (e.conn.socket = none → e.conn.atBoundary = true))
  | .refused _ | .wrote _ _ | .hungUp | .read _ _ _ _ | .handled _ =>
    inferInstanceAs (Decidable True)

instance Outgoing.decidableClean (past : List (Label β)) (e : Endpoint β) (l : Label β) :
    Decidable (Outgoing.Clean past e l) :=
  inferInstanceAs (Decidable (_ ∧ _))

namespace Outgoing

/-- The number of frames that have left the queue. -/
def gone (past : List (Label β)) (e : Endpoint β) : Nat :=
  (sentFrames past).length - e.conn.writeQueue.length

/-- One of the sockets carries the frame with this number in whole, behind whole frames. -/
def Written (hist : List (Label β)) (i : Nat) : Prop :=
  ∃ s k, k ≤ i ∧ (((sentFrames hist).take (i + 1)).drop k).flatten <+: writtenOn s hist

/-- The stream of each socket starts with a frame whose number meets `B`; what is queued goes
on with the stream of the current socket. -/
structure Invariant (B : Nat → Prop) (hist : List (Label β)) (e : Endpoint β) : Prop where
  tasks : e.conn.writeQueue.map WriteTask.data <:+ sentFrames hist
  waiting : ∀ t ∈ e.conn.writeQueue.tail, t.offset = 0
  registered : e.conn.socket = none → e.conn.interest = none
  opened : ∀ s, e.conn.socket = some s → s < e.nextSocket
  current : ∀ s, e.conn.socket = some s → e.conn.interest.isSome → ∃ k ≤ gone hist e, B k ∧
    writtenOn s hist ++ e.conn.queued = ((sentFrames hist).drop k).flatten
  closed : ∀ s, writtenOn s hist = [] ∨
    ∃ k rest, B k ∧ writtenOn s hist ++ rest = ((sentFrames hist).drop k).flatten
  complete : ∀ i < gone hist e, Written hist i
  unopened : ∀ s, e.nextSocket ≤ s → writtenOn s hist = []

theorem unbegun {c : LocalBusConnection β} (waiting : ∀ t ∈ c.writeQueue.tail, t.offset = 0)
    (boundary : c.atBoundary = true) : ∀ t ∈ c.writeQueue, t.offset = 0 := by
  cases queue : c.writeQueue with
  | nil => simp
  | cons front rest =>
    simp only [LocalBusConnection.atBoundary, queue, List.head?_cons, Option.all_some,
      beq_iff_eq] at boundary
    simpa [queue, boundary] using waiting

theorem writtenOn_append (s : SocketId) (past : List (Label β)) (l : Label β)
    (quiet : l.wroteOn = none) : writtenOn s (past ++ [l]) = writtenOn s past := by
  simp [writtenOn, quiet]

theorem writtenOn_wrote (s socket : SocketId) (past : List (Label β)) (bytes : List β) :
    writtenOn s (past ++ [.wrote socket bytes]) =
      writtenOn s past ++ if socket = s then bytes else [] := by
  simp [writtenOn, Label.wroteOn]

theorem Invariant.queue_le {B : Nat → Prop} {hist : List (Label β)} {e : Endpoint β}
    (inv : Invariant B hist e) : e.conn.writeQueue.length ≤ (sentFrames hist).length := by
  simpa using inv.tasks.length_le

theorem Invariant.queue_eq {B : Nat → Prop} {hist : List (Label β)} {e : Endpoint β}
    (inv : Invariant B hist e) :
    e.conn.writeQueue.map WriteTask.data = (sentFrames hist).drop (gone hist e) := by
  rw [List.suffix_iff_eq_drop.mp inv.tasks]
  simp [gone]

theorem Invariant.opens {B : Nat → Prop} {past : List (Label β)} {e : Endpoint β}
    (inv : Invariant B past e) (opens : e.Opens socket)
    (registered : e.conn.socket.isSome → e.conn.interest.isSome)
    (boundary : e.conn.socket = none → e.conn.atBoundary = true)
    (begins : e.conn.socket = none → B (gone past e)) :
    ∃ k ≤ gone past e, B k ∧
      writtenOn socket past ++ e.conn.queued = ((sentFrames past).drop k).flatten := by
  rcases opens with up | ⟨down, rfl⟩
  · exact inv.current socket up (registered (by simp [up]))
  · refine ⟨gone past e, Nat.le_refl _, begins down, ?_⟩
    rw [inv.unopened _ (Nat.le_refl _), List.nil_append, LocalBusConnection.queued,
      LocalBusConnection.queued_unbegun (unbegun inv.waiting (boundary down)), inv.queue_eq]

theorem Invariant.closed_later {B : Nat → Prop} {past : List (Label β)} {e : Endpoint β}
    (inv : Invariant B past e) (l : Label β) (quiet : l.wroteOn = none) (s : SocketId) :
    writtenOn s (past ++ [l]) = [] ∨ ∃ k rest, B k ∧
      writtenOn s (past ++ [l]) ++ rest = ((sentFrames (past ++ [l])).drop k).flatten := by
  rw [writtenOn_append s past l quiet, sentFrames_append]
  rcases inv.closed s with silent | ⟨k, rest, begins, stream⟩
  · exact .inl silent
  · refine .inr ⟨k, rest ++ (l.sentData.drop (k - (sentFrames past).length)).flatten, begins, ?_⟩
    rw [← List.append_assoc, stream, List.drop_append, List.flatten_append]

theorem Written.later {past : List (Label β)} {i : Nat} (l : Label β)
    (sent : i < (sentFrames past).length) (written : Written past i) : Written (past ++ [l]) i := by
  obtain ⟨s, k, le, whole⟩ := written
  refine ⟨s, k, le, ?_⟩
  rw [sentFrames_append, List.take_append_of_le_length sent]
  refine whole.trans ?_
  rw [writtenOn, writtenOn, List.filterMap_append, List.flatMap_append]
  exact List.prefix_append _ _

/-- Once the queue has moved past a frame, the socket carries it in whole. -/
theorem written_whole {hist : List (Label β)} {e : Endpoint β}
    (stream : writtenOn s hist ++ e.conn.queued = ((sentFrames hist).drop k).flatten)
    (unbegun : ∀ t ∈ e.conn.writeQueue, t.offset = 0)
    (queue : e.conn.writeQueue.map WriteTask.data = (sentFrames hist).drop (i + 1))
    (sent : i < (sentFrames hist).length) (before : k ≤ i) : Written hist i := by
  refine ⟨s, k, before, ?_⟩
  rw [LocalBusConnection.queued, LocalBusConnection.queued_unbegun unbegun, queue] at stream
  have cut : (sentFrames hist).drop k =
      ((sentFrames hist).take (i + 1)).drop k ++ (sentFrames hist).drop (i + 1) := by
    conv_lhs => rw [← List.take_append_drop (i + 1) (sentFrames hist)]
    rw [List.drop_append_of_le_length]
    simp only [List.length_take]
    omega
  rw [cut, List.flatten_append] at stream
  have whole := List.append_cancel_right stream
  exact whole ▸ List.prefix_refl _

theorem Invariant.quiet {B : Nat → Prop} {past : List (Label β)} {e e' : Endpoint β} {l : Label β}
    (inv : Invariant B past e) (unsent : l.sentData = []) (unwritten : l.wroteOn = none)
    (queue : e'.conn.writeQueue = e.conn.writeQueue) (later : e.nextSocket ≤ e'.nextSocket)
    (registered : e'.conn.socket = none → e'.conn.interest = none)
    (opened : ∀ s, e'.conn.socket = some s → s < e'.nextSocket)
    (same : ∀ s, e'.conn.socket = some s → e'.conn.interest.isSome →
      e.conn.socket = some s ∧ e.conn.interest.isSome) : Invariant B (past ++ [l]) e' := by
  have frames : sentFrames (past ++ [l]) = sentFrames past := by simp [sentFrames_append, unsent]
  have left : gone (past ++ [l]) e' = gone past e := by rw [gone, gone, frames, queue]
  constructor
  case tasks =>
    rw [queue, frames]
    exact inv.tasks
  case waiting =>
    rw [queue]
    exact inv.waiting
  case registered => exact registered
  case opened => exact opened
  case current =>
    intro s up interest
    obtain ⟨up, interest⟩ := same s up interest
    rw [left, frames, writtenOn_append _ _ _ unwritten, LocalBusConnection.queued, queue]
    exact inv.current s up interest
  case closed => exact inv.closed_later _ unwritten
  case complete =>
    intro i hi
    rw [left] at hi
    exact (inv.complete i hi).later _ (Nat.lt_of_lt_of_le hi (Nat.sub_le _ _))
  case unopened =>
    intro s hs
    rw [writtenOn_append _ _ _ unwritten]
    exact inv.unopened s (Nat.le_trans later hs)

theorem Invariant.write {B : Nat → Prop} {past : List (Label β)} {e : Endpoint β}
    (inv : Invariant B past e) (n : Nat) (up : e.conn.socket = some socket)
    (registered : e.conn.interest.isSome) :
    Invariant B (past ++ [.wrote socket (e.conn.output n).1])
      { e with conn := (e.conn.output n).2 } := by
  have bound := inv.queue_le
  have opened := inv.opened socket up
  obtain ⟨k, le, begun, stream⟩ := inv.current socket up registered
  have frames : sentFrames (past ++ [.wrote socket (e.conn.output n).1]) = sentFrames past := by
    simp [sentFrames_append, Label.sentData]
  have queue : (e.conn.output n).2.writeQueue =
      (LocalBusConnection.writeFront n e.conn.writeQueue).2 := by
    rw [LocalBusConnection.output_eq]
  have bytes := LocalBusConnection.writeFront_bytes n e.conn.writeQueue
  have elsewhere (s : SocketId) (other : socket ≠ s) :
      writtenOn s (past ++ [.wrote socket (e.conn.output n).1]) = writtenOn s past := by
    rw [writtenOn_wrote, if_neg other, List.append_nil]
  have onward : writtenOn socket (past ++ [.wrote socket (e.conn.output n).1]) ++
      (e.conn.output n).2.queued = ((sentFrames past).drop k).flatten := by
    rw [← stream, writtenOn_wrote, if_pos rfl, LocalBusConnection.queued,
      LocalBusConnection.queued, ← bytes, LocalBusConnection.output_eq, List.append_assoc]
  have less : (e.conn.output n).2.writeQueue.length ≤ e.conn.writeQueue.length := by
    obtain ⟨j, _, data⟩ := LocalBusConnection.writeFront_data n e.conn.writeQueue
    have := congrArg List.length data
    simp only [List.length_map, List.length_drop] at this
    rw [queue]
    omega
  have waiting : ∀ t ∈ (e.conn.output n).2.writeQueue.tail, t.offset = 0 := by
    rw [queue]
    exact LocalBusConnection.writeFront_waiting n inv.waiting
  have tasks : (e.conn.output n).2.writeQueue.map WriteTask.data <:+ sentFrames past := by
    obtain ⟨j, _, data⟩ := LocalBusConnection.writeFront_data n e.conn.writeQueue
    rw [queue, data]
    exact (List.drop_suffix _ _).trans inv.tasks
  constructor
  case tasks =>
    rw [frames]
    exact tasks
  case waiting => exact waiting
  case registered =>
    intro down
    simp [LocalBusConnection.output_eq, up] at down
  case opened =>
    intro s hs
    obtain rfl : socket = s := by simpa [LocalBusConnection.output_eq, up] using hs
    exact opened
  case current =>
    intro s hs _
    obtain rfl : socket = s := by simpa [LocalBusConnection.output_eq, up] using hs
    refine ⟨k, ?_, begun, by rw [frames]; exact onward⟩
    simp only [gone, frames] at le ⊢
    omega
  case closed =>
    intro s
    rw [frames]
    by_cases here : socket = s
    · subst here
      exact .inr ⟨k, _, begun, onward⟩
    · rw [elsewhere s here]
      exact inv.closed s
  case complete =>
    intro i hi
    by_cases before : i < gone past e
    · exact (inv.complete i before).later _ (Nat.lt_of_lt_of_le before (Nat.sub_le _ _))
    · -- the front task has just left the queue
      simp only [gone, frames] at hi before le
      rcases LocalBusConnection.writeFront_tasks n e.conn.writeQueue with
        tail | ⟨task, rest, full, advanced⟩
      · rw [← queue] at tail
        have unbegun : ∀ t ∈ (e.conn.output n).2.writeQueue, t.offset = 0 := by
          rw [tail]
          exact inv.waiting
        have short := congrArg List.length tail
        rw [List.length_tail] at short
        refine written_whole (e := { e with conn := (e.conn.output n).2 })
          (by rw [frames]; exact onward) unbegun ?_ (by rw [frames]; omega) (by omega)
        rw [frames]
        change (e.conn.output n).2.writeQueue.map WriteTask.data = _
        rw [tail, List.map_tail, inv.queue_eq, List.tail_drop]
        congr 1
        simp only [gone]
        omega
      · have short := congrArg List.length advanced
        rw [← queue, List.length_cons, ← List.length_cons, ← full] at short
        omega
  case unopened =>
    intro s hs
    rw [elsewhere s (Nat.ne_of_lt (Nat.lt_of_lt_of_le opened hs))]
    exact inv.unopened s hs

theorem Invariant.send {B : Nat → Prop} {past : List (Label β)} {e : Endpoint β}
    (inv : Invariant B past e) (opens : e.Opens socket)
    (registered : e.conn.socket.isSome → e.conn.interest.isSome)
    (boundary : e.conn.socket = none → e.conn.atBoundary = true)
    (begins : e.conn.socket = none → B (gone past e)) (serial : UInt32) (data : List β) :
    Invariant B (past ++ [.sent serial data]) { e with
      conn := { e.conn with
        socket := some socket, interest := some true,
        writeQueue := e.conn.writeQueue ++ [⟨data, 0⟩],
        writeSerial := e.conn.writeSerial + 1 }
      nextSocket := e.nextSocket + 1 } := by
  have bound := inv.queue_le
  obtain ⟨k, le, begun, stream⟩ := inv.opens opens registered boundary begins
  have frames : sentFrames (past ++ [.sent serial data]) = sentFrames past ++ [data] :=
    sentFrames_append _ _
  have left : (sentFrames past ++ [data]).length -
      (e.conn.writeQueue ++ [(⟨data, 0⟩ : WriteTask β)]).length = gone past e := by
    simp only [gone, List.length_append, List.length_singleton]
    omega
  constructor
  case tasks =>
    obtain ⟨written, queue⟩ := inv.tasks
    exact ⟨written, by rw [frames, ← queue]; simp⟩
  case waiting =>
    intro t ht
    cases queue : e.conn.writeQueue with
    | nil => simp [queue] at ht
    | cons front rest =>
      simp only [queue, List.cons_append, List.tail_cons, List.mem_append,
        List.mem_singleton] at ht
      rcases ht with ht | rfl
      · exact inv.waiting t (by simpa [queue] using ht)
      · rfl
  case registered => simp
  case opened =>
    rintro s ⟨⟩
    rcases opens with up | ⟨_, rfl⟩
    · exact Nat.lt_succ_of_lt (inv.opened socket up)
    · exact Nat.lt_succ_self _
  case current =>
    rintro s ⟨⟩ _
    refine ⟨k, by rw [gone, frames, left]; exact le, begun, ?_⟩
    have within : k ≤ (sentFrames past).length := Nat.le_trans le (Nat.sub_le _ _)
    rw [frames, writtenOn_append _ _ _ rfl, List.drop_append_of_le_length within,
      List.flatten_append, ← stream]
    simp [LocalBusConnection.queued, WriteTask.getBuffer]
  case closed => exact inv.closed_later _ rfl
  case complete =>
    intro i hi
    rw [gone, frames, left] at hi
    exact (inv.complete i hi).later _ (Nat.lt_of_lt_of_le hi (Nat.sub_le _ _))
  case unopened =>
    intro s hs
    rw [writtenOn_append _ _ _ rfl]
    exact inv.unopened s (Nat.le_of_succ_le hs)

theorem invariant_step {B : Nat → Prop} {past : List (Label β)} {e e' : Endpoint β} {l : Label β}
    (inv : Invariant B past e) (step : Endpoint.Step e l e') (unbroken : Unbroken e l)
    (begins : l.calls = true → e.conn.socket = none → B (gone past e)) :
    Invariant B (past ++ [l]) e' := by
  have effect := step.writes
  cases effect with
  | sent opens registered => exact inv.send opens registered unbroken (begins rfl) _ _
  | @refused socket data opens =>
    refine inv.quiet rfl rfl rfl (Nat.le_succ _) (by simp) ?_ ?_
    · rintro s ⟨⟩
      rcases opens with up | ⟨_, rfl⟩
      · exact Nat.lt_succ_of_lt (inv.opened socket up)
      · exact Nat.lt_succ_self _
    · rintro s ⟨⟩ registered
      rcases opens with up | ⟨down, _⟩
      · exact ⟨up, registered⟩
      · -- a connection that failed stays unregistered
        have none : e.conn.interest = none := inv.registered down
        simp [none] at registered
  | wrote n up registered => exact inv.write n up registered
  | hungUp =>
    exact inv.quiet rfl rfl rfl (Nat.le_refl _) (fun _ => rfl) (fun s hs => by contradiction)
      (fun s hs => by contradiction)
  | reading task serial stack unsent unwritten =>
    exact inv.quiet unsent unwritten rfl (Nat.le_refl _) inv.registered inv.opened
      fun s up registered => ⟨up, registered⟩

theorem whole_frames {C : List (Label β) → Endpoint β → Label β → Prop}
    (met : ∀ {past e l}, C past e l → ∀ u ∈ l.sentData, Delimited.Whole (frames β) u)
    (run : Guarded Endpoint.Step C start hist e) :
    ∀ u ∈ sentFrames hist, Delimited.Whole (frames β) u := by
  refine run.history (P := fun hist _ => ∀ u ∈ sentFrames hist, Delimited.Whole (frames β) u) ?_
    (by simp [sentFrames])
  intro past e l e' before _ clean u hu
  rw [sentFrames_append] at hu
  rcases List.mem_append.mp hu with hu | hu
  · exact before u hu
  · exact met clean u hu

theorem invariant_start {B : Nat → Prop} {start : Endpoint β} (started : Endpoint.Started start)
    (zero : B 0) : Invariant B [] start := by
  cases started with
  | outgoing serviceId =>
    exact ⟨List.nil_suffix, by simp [LocalBusConnection.create], fun _ => rfl,
      by simp [LocalBusConnection.create], by simp [LocalBusConnection.create],
      fun _ => .inl rfl, by simp [gone, sentFrames], fun _ _ => rfl⟩
  | accepted serviceId socket =>
    refine ⟨List.nil_suffix, by simp [LocalBusConnection.accept],
      by simp [LocalBusConnection.accept], ?_, ?_, fun _ => .inl rfl, by simp [gone, sentFrames],
      fun _ _ => rfl⟩
    · rintro s ⟨⟩
      exact Nat.lt_succ_self _
    · rintro s ⟨⟩ _
      exact ⟨0, Nat.zero_le _, zero, rfl⟩

end Outgoing

/-- Every run in which no new socket finds a frame partly written: on every socket the
connection writes whole frames it was given, from the beginning of one of them. -/
theorem framed_on_sockets {start e : Endpoint β} {hist : List (Label β)}
    (started : Endpoint.Started start) (run : Guarded Endpoint.Step Outgoing.Clean start hist e)
    (socket : SocketId) : FramedOn socket hist := by
  have inv : Outgoing.Invariant (fun _ => True) hist e := by
    refine run.history ?_ (Outgoing.invariant_start started trivial)
    intro past e l e' inv step clean
    exact Outgoing.invariant_step inv step clean.2 fun _ _ => trivial
  have whole := Outgoing.whole_frames (fun clean => clean.1) run
  rcases inv.closed socket with silent | ⟨k, rest, _, stream⟩
  · exact ⟨[], List.nil_infix, by simp, by simp [silent]⟩
  · exact ⟨(sentFrames hist).drop k, (List.drop_suffix _ _).isInfix,
      fun u hu => whole u (List.mem_of_mem_drop hu), rest, stream⟩

/-- A frame written in two pieces, a hang-up, and a frame on the next socket. -/
theorem framed_on_next_socket :
    ∃ (hist : List (Label UInt8)) (e : Endpoint UInt8),
      Reaches Endpoint.Step { conn := .create ⟨['a'], 1⟩ } hist e ∧
      writtenOn 1 hist = [1, 0, 0, 0] ∧ FramedOn 1 hist := by
  have run := Endpoint.played (Outgoing.Clean (β := UInt8)) { conn := .create ⟨['a'], 1⟩ }
    [.send [1, 0, 0, 0, 65] true, .output 3, .output 2, .hangup, .send [1, 0, 0, 0, 66] true,
      .output 4]
  exact ⟨_, _, run.reaches, by decide +kernel, framed_on_sockets (.outgoing _) run 1⟩

/-- A hang-up in the middle of a frame: the next socket starts with the rest of it. -/
theorem frame_continued_on_next_socket :
    ∃ (hist : List (Label UInt8)) (e : Endpoint UInt8),
      Reaches Endpoint.Step { conn := .create ⟨['a'], 1⟩ } hist e ∧
      (∀ u ∈ sentFrames hist, Delimited.Whole (frames UInt8) u) ∧
      writtenOn 1 hist = [66, 1, 0, 0, 0, 67] ∧ ¬ FramedOn 1 hist := by
  obtain ⟨hist, e, run, sent, written⟩ : ∃ (hist : List (Label UInt8)) (e : Endpoint UInt8),
      Reaches Endpoint.Step { conn := .create ⟨['a'], 1⟩ } hist e ∧
      sentFrames hist = [[2, 0, 0, 0, 65, 66], [1, 0, 0, 0, 67]] ∧
      writtenOn 1 hist = [66, 1, 0, 0, 0, 67] :=
    ⟨_, _, (Endpoint.played (fun _ _ _ => True) _ [.send [2, 0, 0, 0, 65, 66] true, .output 5,
      .hangup, .send [1, 0, 0, 0, 67] true, .output 9, .output 9]).reaches,
      by decide +kernel, by decide +kernel⟩
  refine ⟨hist, e, run, by rw [sent]; decide +kernel, written, ?_⟩
  rintro ⟨us, frames, -, stream⟩
  rw [written] at stream
  rw [sent] at frames
  cases us with
  | nil => simp at stream
  | cons u us =>
    -- every frame that was sent begins with its own length
    have first : u = [2, 0, 0, 0, 65, 66] ∨ u = [1, 0, 0, 0, 67] := by
      simpa using frames.subset List.mem_cons_self
    rcases first with rfl | rfl <;> simp at stream

end PBus.Connection
