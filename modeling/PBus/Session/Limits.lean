import PBus.Link.Exchange
import PBus.Session.Correlation

/-! Where the correlation of requests and answers ends. The length of a frame and the serial
of a request have 32 bits each, and an entry of `_requests` is never taken out. -/
namespace PBus
open Transition Connection Endpoint Session

namespace Rpc
variable {tk : Toolkit}

theorem answer_idle (lawful : tk.Lawful) (k : Rpc tk) (side : Side) {d : Dispatch UInt8}
    {outcome : Outcome tk}
    (answer : d.payload = answerPayload asked outcome) :
    (onIncomingData k side d).current = k.current := by
  cases outcome with
  | error text => simp [onIncomingData, answer, answerPayload, request_exception lawful]
  | ok result => simp [onIncomingData, answer, answerPayload, request_result lawful]

theorem onIncomingData_requests (k : Rpc tk) (link : Link)
    (current : Side → Option (UInt32 × List UInt8)) (side : Side) (d : Dispatch UInt8) :
    (onIncomingData { k with link, current } side d).requests =
      (onIncomingData k side d).requests := by
  unfold onIncomingData
  split <;> rfl

theorem send_step {k : Link} {side : Side} (data : List UInt8)
    (registered : (k.ends side).conn.socket.isSome → (k.ends side).conn.interest.isSome) :
    ∃ socket link, Link.Step k (side, .sent (k.ends side).conn.writeSerial data) link ∧
      link.ends side = { k.ends side with
        conn := { (k.ends side).conn with
          socket := some socket, interest := some true,
          writeQueue := (k.ends side).conn.writeQueue ++ [⟨data, 0⟩],
          writeSerial := (k.ends side).conn.writeSerial + 1 }
        nextSocket := (k.ends side).nextSocket + 1 } ∧
      link.ends side.other = k.ends side.other ∧ link.wire = k.wire := by
  obtain ⟨socket, sent⟩ := send_registered registered data
  exact ⟨socket, _, Link.step_silent (.sent sent) rfl rfl, by simp, by simp, rfl⟩

theorem return_step {k : Link} {side : Side} (stack : (k.ends side).stack = [⟨socket, []⟩]) :
    ∃ link, Link.Step k (side, .handled none) link ∧
      link.ends side = { k.ends side with conn := (k.ends side).conn.resetRead, stack := [] } ∧
      link.ends side.other = k.ends side.other ∧ link.wire = k.wire :=
  ⟨_, Link.step_silent (.handled (handled_last stack)) rfl rfl, by simp, by simp, rfl⟩

theorem continue_step {k : Link} {side : Side} {u rest : List UInt8}
    (stack : (k.ends side).stack = [⟨socket, u ++ rest⟩])
    (whole : Delimited.Whole (frames UInt8) u) :
    ∃ task d link, Link.Step k (side, .handled (some d)) link ∧ d.frame = u ∧
      d.serial = (k.ends side).conn.readSerial ∧
      link.ends side = { k.ends side with
        conn := { (k.ends side).conn with
          readTask := task, readSerial := (k.ends side).conn.readSerial + 1 }
        stack := [⟨socket, rest⟩] } ∧
      link.ends side.other = k.ends side.other ∧ link.wire = k.wire := by
  obtain ⟨task, d, handled, frame, serial⟩ := handled_whole stack whole
  exact ⟨task, d, _, Link.step_silent (.handled handled) rfl rfl, frame, serial, by simp, by simp,
    rfl⟩

/-- A side with nothing else to write answers what it handles, and the answer is handed over
on the other side, if that side is between events. -/
theorem reply (lawful : tk.Lawful) {k : Rpc tk} {b : Side} {result outcome : Outcome tk}
    (busy : k.current b = some (asked, payload)) (handled : handle tk payload result = some outcome)
    (registered : (k.link.ends b).conn.interest.isSome)
    (empty : (k.link.ends b).conn.writeQueue = []) (clear : k.link.wire b = [])
    (listening : (k.link.ends b.other).Listening) (up' : (k.link.ends b.other).conn.socket.isSome)
    (registered' : (k.link.ends b.other).conn.interest.isSome)
    (idle : k.current b.other = none)
    (fits : (answerPayload asked outcome).length < 2 ^ 32)
    (small : (frame (answerPayload asked outcome)).length ≤ readBufferSize) :
    ∃ serial s s' d k₁ k₂ k₃ k₄, Step k (.answered b asked payload outcome serial) k₁ ∧
      Step k₁ (.moved b (.wrote s (frame (answerPayload asked outcome)))) k₂ ∧
      Step k₂ (.moved b.other
        (.read s' false (frame (answerPayload asked outcome)) (some d))) k₃ ∧
      Step k₃ (.moved b.other (.handled none)) k₄ ∧
      d.payload = answerPayload asked outcome ∧
      k₄.requests = (onIncomingData k b.other d).requests ∧
      k₄.current = Function.update k.current b none ∧
      k₄.link.ends b = { k.link.ends b with
        conn := { (k.link.ends b).conn with
          socket := some s, interest := some false,
          writeSerial := (k.link.ends b).conn.writeSerial + 1 }
        nextSocket := (k.link.ends b).nextSocket + 1 } ∧
      k₄.link.ends b.other = { k.link.ends b.other with
        conn := { (k.link.ends b.other).conn with
          readTask := .new, readSerial := (k.link.ends b.other).conn.readSerial + 1 }
        stack := [] } ∧
      k₄.link.wire b = [] ∧ k₄.link.wire b.other = k.link.wire b.other := by
  obtain ⟨s', up'⟩ := Option.isSome_iff_exists.mp up'
  obtain ⟨s, l₁, sent, mine₁, theirs₁, wires₁⟩ :=
    send_step (frame (answerPayload asked outcome)) fun _ => registered
  have queue : (l₁.ends b).conn.writeQueue = [⟨frame (answerPayload asked outcome), 0⟩] := by
    simp [mine₁, empty]
  have open₁ : (l₁.ends b).conn.socket = some s := by rw [mine₁]
  rw [← theirs₁] at up' registered' listening
  obtain ⟨l₂, l₃, task, d, wrote, read, given, -, mine₃, theirs₃, clear₃, wires₃⟩ :=
    Link.deliver queue open₁ (by rw [mine₁]; rfl) (by rw [wires₁, clear]) (frame_whole fits) small
      listening up' registered'
  obtain ⟨l₄, returned, mine₄, theirs₄, wires₄⟩ :=
    return_step (k := l₃) (by rw [theirs₃])
  rw [Side.other_other] at theirs₄
  have answer : d.payload = answerPayload asked outcome := by
    rw [Dispatch.payload_eq, given, frame_drop]
  let k₁ : Rpc tk := { k with link := l₁, current := Function.update k.current b none }
  let k₃ := onIncomingData { k₁ with link := l₃ } b.other d
  have idle₁ : k₁.current b.other = none := by simp [k₁, idle]
  have same₃ : k₃.current = k₁.current := answer_idle lawful _ b.other answer
  refine ⟨_, s, s', d, k₁, { k₁ with link := l₂ }, k₃, { k₃ with link := l₄ },
    .answer busy handled sent, .event wrote rfl rfl (by simp),
    .dispatch read rfl idle₁, .event ?_ rfl rfl fun _ _ => ?_, answer, ?_, same₃, ?_, ?_, ?_, ?_⟩
  · simpa [k₃] using returned
  · rw [same₃, idle₁]
  · exact onIncomingData_requests k _ _ b.other d
  · change l₄.ends b = _
    rw [theirs₄, mine₃, mine₁]
    simp [empty]
  · change l₄.ends b.other = _
    rw [mine₄, theirs₃, theirs₁]
    simp [LocalBusConnection.resetRead]
  · change l₄.wire b = _
    rw [wires₄, clear₃]
  · change l₄.wire b.other = _
    rw [wires₄, wires₃, wires₁]

theorem handle_busy {k : Rpc tk} {side : Side} {d : Dispatch UInt8} {result outcome : Outcome tk}
    (handled : handle tk d.payload result = some outcome) : onIncomingData k side d = { k with
      current := Function.update k.current side (some (d.serial, d.payload)) } := by
  unfold handle at handled
  unfold onIncomingData
  split at handled <;> simp_all

theorem sent_length (side : Side) (past : List (Label tk)) (l : Label tk) :
    (sent side (past ++ [l])).length = (sent side past).length + (l.sent side).length := by
  rw [sent_append, List.length_append]

theorem received_length (side : Side) (past : List (Label tk)) (l : Label tk) :
    (received side (past ++ [l])).length =
      (received side past).length + (handed (Link.of side l.link.toList)).length := by
  rw [received_append, List.length_append]

/-- After `m` requests of the connecting side, each answered before the next. -/
structure Turn (start : Rpc tk) (m : Nat) (past : List (Label tk)) (k : Rpc tk) : Prop where
  run : Guarded Step Peaceful start past k
  registered : ∀ s, (k.link.ends s).conn.socket.isSome → (k.link.ends s).conn.interest.isSome
  empty : ∀ s, (k.link.ends s).conn.writeQueue = []
  listening : ∀ s, (k.link.ends s).Listening
  clear : ∀ s, k.link.wire s = []
  idle : ∀ s, k.current s = none
  accepted : (k.link.ends .accepting).conn.socket.isSome
  asked : (sent .connecting past).length = m
  got : (received .accepting past).length = m
  answered : (sent .accepting past).length = m
  given : (received .connecting past).length = m
  lockstep : ∀ before asked payload outcome serial,
    before ++ [.answered .accepting asked payload outcome serial] <+: past →
    (received .accepting before).length = (sent .accepting before).length + 1
  oneway : ∀ asked payload outcome serial,
    Label.answered .connecting asked payload outcome serial ∉ past

theorem peaceful_quiet {past : List (Label tk)} {k : Rpc tk} {l : Label tk}
    (calm : ∀ x ∈ l.link, Link.Calm x)
    (quiet : ∀ side act, l = .moved side act → act.dispatched = []) : Peaceful past k l :=
  ⟨calm, fun side act same dispatched => absurd (quiet side act same) dispatched⟩

/-- The request with the number `m` has been handed over and not been answered. -/
structure Handling (start : Rpc tk) (m : Nat) (past : List (Label tk)) (k : Rpc tk)
    (p : List UInt8) : Prop where
  run : Guarded Step Peaceful start past k
  busy : k.current .accepting = some (UInt32.ofNat m, p)
  idle : k.current .connecting = none
  registered : ∀ s, (k.link.ends s).conn.socket.isSome ∧ (k.link.ends s).conn.interest.isSome
  empty : ∀ s, (k.link.ends s).conn.writeQueue = []
  listening : (k.link.ends .connecting).Listening
  suspended : ∃ socket, (k.link.ends .accepting).stack = [⟨socket, []⟩]
  clear : ∀ s, k.link.wire s = []
  asked : (sent .connecting past).length = m + 1
  got : (received .accepting past).length = m + 1
  answered : (sent .accepting past).length = m
  given : (received .connecting past).length = m
  lockstep : ∀ before asked payload outcome serial,
    before ++ [.answered .accepting asked payload outcome serial] <+: past →
    (received .accepting before).length = (sent .accepting before).length + 1
  oneway : ∀ asked payload outcome serial,
    Label.answered .connecting asked payload outcome serial ∉ past

theorem mem_of_position {L : Type} {before past : List L} {l : L} (here : before ++ [l] <+: past) :
    l ∈ past := here.subset (by simp)

theorem both {P : Side → Prop} (connecting : P .connecting) (accepting : P .accepting) :
    ∀ s, P s := fun s => by cases s <;> assumption

theorem Turn.ask {start k : Rpc tk} {m : Nat} {past : List (Label tk)} {p : List UInt8}
    {result outcome : Outcome tk} (started : Started start)
    (turn : Turn start m past k) (l : UInt32 → Label tk) (next : UInt32 → Link → Rpc tk)
    (first : ∀ n link, Link.Step k.link (.connecting, .sent n (frame p)) link →
      Step k (l n) (next n link))
    (link : ∀ n, (l n).link = some (.connecting, .sent n (frame p)))
    (keeps : ∀ n link, (next n link).link = link ∧ (next n link).current = k.current)
    (asks : ∀ n side asked payload outcome serial,
      l n ≠ .answered side asked payload outcome serial)
    (handled : handle tk p result = some outcome) (fits : p.length < 2 ^ 32)
    (small : (frame p).length ≤ readBufferSize) :
    ∃ n link hist k', past ++ [l n] <+: hist ∧ Handling start m hist k' p ∧
      k'.requests = (next n link).requests ∧
      ∀ side asked payload outcome serial, .answered side asked payload outcome serial ∈ hist →
        .answered side asked payload outcome serial ∈ past := by
  obtain ⟨s, l₁, sent₁, mine₁, theirs₁, wires₁⟩ :=
    send_step (frame p) (turn.registered .connecting)
  generalize (k.link.ends .connecting).conn.writeSerial = n at sent₁ mine₁
  change l₁.ends .accepting = k.link.ends .accepting at theirs₁
  obtain ⟨s', up'⟩ := Option.isSome_iff_exists.mp turn.accepted
  have registered' := turn.registered _ turn.accepted
  have listening := turn.listening .accepting
  rw [← theirs₁] at up' registered' listening
  have queue : (l₁.ends .connecting).conn.writeQueue = [⟨frame p, 0⟩] := by
    simp [mine₁, turn.empty]
  have open₁ : (l₁.ends .connecting).conn.socket = some s := by rw [mine₁]
  obtain ⟨l₂, l₃, task, d, wrote, read, given, -, mine₃, theirs₃, clear₃, wires₃⟩ :=
    Link.deliver queue open₁ (by rw [mine₁]; rfl) (by rw [wires₁, turn.clear]) (frame_whole fits)
      small listening up' registered'
  simp only [Side.other] at theirs₃ wires₃ read
  have asked : d.payload = p := by rw [Dispatch.payload_eq, given, frame_drop]
  obtain ⟨link₁, current₁⟩ := keeps n l₁
  have run₁ : Guarded Step Peaceful start (past ++ [l n]) (next n l₁) := by
    refine turn.run.next (first n l₁ sent₁) (peaceful_quiet ?_ ?_)
    · rw [link]
      rintro x ⟨⟩
      exact ⟨p, rfl, fits⟩
    · intro side act same
      have sends := link n
      rw [same] at sends
      cases sends
      rfl
  have run₂ := run₁.next (.event (l := .wrote s (frame p)) (link₁.symm ▸ wrote) rfl rfl (by simp))
    (peaceful_quiet (by rintro x ⟨⟩; trivial) (by rintro side act ⟨⟩; rfl))
  let hist := past ++ [l n] ++ [.moved .connecting (.wrote s (frame p))]
  have old {side : Side} {asked payload outcome serial}
      (here : Label.answered side asked payload outcome serial ∈ hist) :
      Label.answered side asked payload outcome serial ∈ past := by
    simpa [hist, (asks n _ _ _ _ _).symm] using here
  let hist' := hist ++ [.moved .accepting (.read s' false (frame p) (some d))]
  have run₃ : Guarded Step Peaceful start hist'
      (onIncomingData { next n l₁ with link := l₃ } .accepting d) := by
    refine run₂.next (.dispatch read rfl (by simp [current₁, turn.idle])) ⟨?_, ?_⟩
    · rintro x ⟨⟩
      rfl
    · rintro side act ⟨⟩ - before asked payload outcome serial here
      exact absurd (old (mem_of_position here)) (turn.oneway _ _ _ _)
  have counts : (received .accepting hist).length = m := by
    simp only [hist, received_length, link n]
    simp [Label.link, Link.of, handed, turn.got]
  have number : d.serial = UInt32.ofNat m := by
    have last : (received Side.connecting.other hist')[m]? = some (d.serial, d.frame) := by
      rw [show Side.connecting.other = .accepting from rfl, received_dispatch _ _ rfl rfl]
      simp [← counts]
    exact (received_at started run₃ last).1
  let k₃ : Rpc tk := { next n l₁ with
    link := l₃
    current := Function.update (next n l₁).current .accepting (some (UInt32.ofNat m, p)) }
  have busy : onIncomingData { next n l₁ with link := l₃ } .accepting d = k₃ := by
    rw [handle_busy (by rw [asked]; exact handled), asked, number]
  have handling : Handling start m hist' k₃ p := by
    constructor
    case run => exact busy ▸ run₃
    case busy => simp [k₃]
    case idle => simp [k₃, current₁, turn.idle]
    case registered =>
      apply both
      · simp [k₃, mine₃, mine₁]
      · simp [k₃, theirs₃, up', registered']
    case empty =>
      apply both
      · simp [k₃, mine₃]
      · simp [k₃, theirs₃, theirs₁, turn.empty]
    case listening =>
      obtain ⟨idle, unfinished, nothing⟩ := turn.listening .connecting
      simp only [k₃, mine₃, mine₁]
      exact ⟨idle, unfinished, nothing⟩
    case suspended => exact ⟨s', by simp [k₃, theirs₃]⟩
    case clear =>
      apply both
      · exact clear₃
      · rw [show k₃.link = l₃ from rfl, wires₃, wires₁, turn.clear]
    case asked =>
      simp only [hist', hist, sent_length, Label.sent, link n]
      simp [Label.link, Link.of, sentFrames, Label.sentData, turn.asked]
    case got =>
      rw [received_length, counts]
      simp [Label.link, Link.of, handed, Label.dispatched]
    case answered =>
      simp only [hist', hist, sent_length, Label.sent, link n]
      simp [Label.link, Link.of, sentFrames, Label.sentData, turn.answered]
    case given =>
      simp only [hist', hist, received_length, link n]
      simp [Label.link, Link.of, handed, Label.dispatched, turn.given]
    case lockstep =>
      intro before asked payload outcome serial here
      have here := History.position_before here (by simp)
      have here := History.position_before here (by simp)
      exact turn.lockstep _ _ _ _ _ (History.position_before here (asks n _ _ _ _ _).symm)
    case oneway =>
      intro asked payload outcome serial here
      exact turn.oneway _ _ _ _ (old (by simpa [hist'] using here))
  refine ⟨n, l₁, hist', k₃, ⟨_, (List.append_assoc _ _ _).symm⟩, handling, rfl, ?_⟩
  intro side asked payload outcome serial here
  exact old (by simpa [hist'] using here)

theorem Handling.answer {start k : Rpc tk} {m : Nat} {past : List (Label tk)} {p : List UInt8}
    {result outcome : Outcome tk} (lawful : tk.Lawful) (handling : Handling start m past k p)
    (handled : handle tk p result = some outcome)
    (fits : (answerPayload (UInt32.ofNat m) outcome).length < 2 ^ 32)
    (small : (frame (answerPayload (UInt32.ofNat m) outcome)).length ≤ readBufferSize) :
    ∃ d hist k', past <+: hist ∧ Turn start (m + 1) hist k' ∧
      d.payload = answerPayload (UInt32.ofNat m) outcome ∧
      k'.requests = (onIncomingData k .connecting d).requests ∧
      ∀ side asked payload outcome' serial,
        .answered side asked payload outcome' serial ∈ hist →
        .answered side asked payload outcome' serial ∈ past ∨ payload = p ∧ outcome' = outcome := by
  obtain ⟨serial, s, s', d, k₁, k₂, k₃, k₄, answered, wrote, read, returned, answer, requests,
      current, mine, theirs, clear, wires⟩ :=
    reply lawful handling.busy handled (handling.registered _).2 (handling.empty _)
      (handling.clear _) handling.listening (handling.registered _).1 (handling.registered _).2
      handling.idle fits small
  simp only [Side.other] at read returned theirs wires requests
  obtain ⟨socket, suspended⟩ := handling.suspended
  obtain ⟨l₅, last, mine₅, theirs₅, wires₅⟩ :=
    return_step
      (show (k₄.link.ends .accepting).stack = [⟨socket, []⟩] by rw [mine]; exact suspended)
  simp only [Side.other] at theirs₅
  let label : Label tk := .answered .accepting (UInt32.ofNat m) p outcome serial
  let hist := past ++ [label] ++
    [.moved .accepting (.wrote s (frame (answerPayload (UInt32.ofNat m) outcome)))]
  have run₁ := handling.run.next answered (peaceful_quiet (by
    rintro x ⟨⟩
    exact ⟨_, rfl, fits⟩) (by rintro side act ⟨⟩))
  have run₂ : Guarded Step Peaceful start hist k₂ :=
    run₁.next wrote (peaceful_quiet (by rintro x ⟨⟩; trivial) (by rintro side act ⟨⟩; rfl))
  have lockstep : ∀ before asked payload outcome' serial',
      before ++ [.answered .accepting asked payload outcome' serial'] <+: hist →
      (received .accepting before).length = (sent .accepting before).length + 1 := by
    intro before asked payload outcome' serial' here
    have here := History.position_before here (by simp)
    rcases List.prefix_concat_iff.mp here with same | earlier
    · rw [(List.append_inj' same rfl).1, handling.got, handling.answered]
    · exact handling.lockstep _ _ _ _ _ earlier
  have given₂ : (received .connecting hist).length = m := by
    simp only [hist, label, received_length]
    simp [Label.link, Link.of, handed, handling.given]
  have asked₂ : (sent .connecting hist).length = m + 1 := by
    simp only [hist, label, sent_length]
    simp [Label.sent, Label.link, Link.of, sentFrames, handling.asked]
  have run₃ := run₂.next read ⟨by
    rintro x ⟨⟩
    rfl, by
    rintro side act ⟨⟩ - before asked payload outcome' serial' here number
    -- the request was the last frame sent
    have count := lockstep before asked payload outcome' serial' here
    change (sent .accepting before).length = _ at number
    change _ < (received .accepting before).length + 2 ^ 32
    omega⟩
  have run₄ := run₃.next returned
    (peaceful_quiet (by rintro x ⟨⟩; trivial) (by rintro side act ⟨⟩; rfl))
  have run₅ := run₄.next (Step.event last rfl rfl (by simp [current]))
    (peaceful_quiet (by rintro x ⟨⟩; trivial) (by rintro side act ⟨⟩; rfl))
  refine ⟨d, _, { k₄ with link := l₅ }, ?_, ⟨run₅, ?registered, ?empty, ?listening, ?clear, ?idle,
    ?accepted, ?asked, ?got, ?answered, ?given, ?lockstep, ?oneway⟩, answer, requests, ?_⟩
  case registered =>
    apply both
    · simp [theirs₅, theirs, handling.registered]
    · simp [mine₅, mine, LocalBusConnection.resetRead]
  case empty =>
    apply both
    · simp [theirs₅, theirs, handling.empty]
    · simp [mine₅, mine, handling.empty, LocalBusConnection.resetRead]
  case listening =>
    apply both
    · simp only [theirs₅, theirs]
      exact ⟨rfl, rfl, rfl⟩
    · simp only [mine₅]
      exact listening_reset
  case clear =>
    apply both
    · simp [wires₅, wires, handling.clear]
    · simp [wires₅, clear]
  case idle =>
    apply both
    · simp [current, handling.idle]
    · simp [current]
  case accepted => simp [mine₅, mine, LocalBusConnection.resetRead]
  case asked =>
    simp only [sent_length, asked₂]
    simp [Label.sent, Label.link, Link.of, sentFrames, Label.sentData]
  case got =>
    simp only [hist, label, received_length]
    simp [Label.link, Link.of, handed, Label.dispatched, handling.got]
  case answered =>
    simp only [hist, label, sent_length]
    simp [Label.sent, Label.link, Link.of, sentFrames, Label.sentData, handling.answered]
  case given =>
    simp only [received_length, given₂]
    simp [Label.link, Link.of, handed, Label.dispatched]
  case lockstep =>
    intro before asked payload outcome' serial' here
    have here := History.position_before here (by simp)
    have here := History.position_before here (by simp)
    exact lockstep _ _ _ _ _ (History.position_before here (by simp))
  case oneway =>
    intro asked payload outcome' serial' here
    exact handling.oneway asked payload outcome' serial' (by simpa [hist, label] using here)
  · simp only [hist, List.append_assoc]
    exact List.prefix_append _ _
  · intro side asked payload outcome' serial' here
    have cases : .answered side asked payload outcome' serial' ∈ past ∨
        .answered side asked payload outcome' serial' = label := by simpa [hist] using here
    rcases cases with old | same
    · exact .inl old
    · obtain ⟨-, -, request, answer, -⟩ := Label.answered.inj same
      exact .inr ⟨request, answer⟩

theorem respond_kept {requests : Requests tk} {data : List UInt8}
    {read : ResponseParser tk → Nat → Except Str (ResponseParser tk)}
    (entry : (requests n).isSome) : (respond requests data read n).isSome := by
  cases found : responseSerial tk data with
  | error text => simpa [respond, found] using entry
  | ok pair =>
    cases parser : requests pair.1 with
    | none => simpa [respond, found, parser] using entry
    | some p =>
      simp only [respond, found, parser, Function.update_apply]
      split <;> simp [entry]

theorem requests_kept {k : Rpc tk} {side c : Side} {d : Dispatch UInt8}
    (entry : (k.requests c n).isSome) : ((onIncomingData k side d).requests c n).isSome := by
  by_cases here : c = side
  · subst here
    unfold onIncomingData
    split
    · simpa [onIncomingException] using respond_kept entry
    · simpa [onIncomingResult] using respond_kept entry
    · exact entry
    · exact entry
  · unfold onIncomingData
    split <;> simpa [here] using entry

theorem exception_stored {k : Rpc tk} {side : Side} {d : Dispatch UInt8} {p : ResponseParser tk}
    (lawful : tk.Lawful) (answer : d.payload = exceptionPayload tk n text)
    (entry : k.requests side n = some p) :
    (onIncomingData k side d).requests side n = some (p.setException text) := by
  simp only [onIncomingData, answer, request_exception lawful, Function.update_self,
    onIncomingException, respond, responseSerial_write lawful, entry,
    readException_write lawful, Functor.map, Except.map]

/-! A request whose serial comes round again before its `Wait`. -/

def unhandled : Str := "unhandled request 5".toList

theorem fresh_turn : Turn fresh 0 [] fresh where
  run := .start
  registered := both (by simp [fresh, Link.fresh, LocalBusConnection.create]) fun _ => rfl
  empty := both rfl rfl
  listening := both ⟨rfl, rfl, rfl⟩ ⟨rfl, rfl, rfl⟩
  clear _ := rfl
  idle _ := rfl
  accepted := rfl
  asked := rfl
  got := rfl
  answered := rfl
  given := rfl
  lockstep before asked payload outcome serial here := by simp at here
  oneway := by simp

/-- One call of the method, then calls of `Release`. -/
structure Releases (m : Nat) (past : List (Label .plain)) (k : Rpc .plain) : Prop where
  turn : Turn fresh m past k
  first : [.invoked .connecting 0 true call] <+: past
  entry : (k.requests .connecting 0).isSome
  answers : ∀ side asked payload outcome serial,
    Label.answered side asked payload outcome serial ∈ past →
    payload = call ∧ outcome = .ok (number 7) ∨ payload = releasePayload .plain target

theorem call_handled : handle .plain call (.ok (number 7)) = some (.ok (number 7)) := rfl

theorem release_handled :
    handle .plain (releasePayload .plain target) (.ok (number 7)) = some (.error unhandled) := rfl

theorem number_short (n : UInt32) :
    (answerPayload n (.ok (number 7) : Outcome .plain)).length ≤ 1024 :=
  Nat.le_of_ble_eq_true rfl

theorem unhandled_short (n : UInt32) :
    (answerPayload n (.error unhandled : Outcome .plain)).length ≤ 1024 := by
  have serial : (Toolkit.plain.u32.write n).length = 4 := rfl
  have type : (Toolkit.plain.u8.write responseException).length = 1 := rfl
  have texts : (Toolkit.plain.string.write "Exception".toList ++
    Toolkit.plain.string.write unhandled).length ≤ 1000 := by decide +kernel
  simp only [answerPayload, exceptionPayload, List.length_append] at texts ⊢
  omega

theorem short_fits {p : List UInt8} (short : p.length ≤ 1024) :
    p.length < 2 ^ 32 ∧ (frame p).length ≤ readBufferSize := by
  have header : (writeU32 p.length).length = 4 := rfl
  simp only [frame, List.length_append, readBufferSize]
  omega

theorem releases_one : ∃ past k, Releases 1 past k := by
  obtain ⟨n, link, hist, k, here, handling, requests, old⟩ :=
    fresh_turn.ask started (fun n => .invoked .connecting n true call)
      (fun n link => { fresh with
        link, requests := Function.update fresh.requests .connecting
          (Function.update (fresh.requests .connecting) n (some (.new true))) })
      (by
        intro n link moved
        exact .invoke .connecting n true target ['m'] [] moved)
      (fun _ => rfl) (fun _ _ => ⟨rfl, rfl⟩) (by simp) call_handled (by decide +kernel)
      (by decide +kernel)
  obtain ⟨fits, small⟩ := short_fits (number_short (UInt32.ofNat 0))
  obtain ⟨d, hist', k', later, turn, -, requests', answers⟩ :=
    handling.answer Toolkit.plain_lawful call_handled fits small
  obtain rfl : n = 0 := serial_eq started handling.run here rfl
  refine ⟨hist', k', turn, here.trans later, ?_, ?_⟩
  · rw [requests']
    apply requests_kept
    simp [requests]
  · intro side asked payload outcome serial member
    rcases answers side asked payload outcome serial member with before | new
    · have none := old side asked payload outcome serial before
      simp at none
    · exact .inl new

theorem Releases.release {m : Nat} {past : List (Label .plain)} {k : Rpc .plain}
    (so : Releases m past k) : ∃ past' k', ∃ p : ResponseParser .plain, Releases (m + 1) past' k' ∧
      (UInt32.ofNat m = 0 → k'.requests .connecting 0 = some (p.setException unhandled)) := by
  obtain ⟨n, link, hist, kh, here, handling, requests, old⟩ :=
    so.turn.ask started (fun n => .released .connecting n (releasePayload .plain target))
      (fun _ link => { k with link }) (by
        intro n link moved
        exact .release .connecting n target moved)
      (fun _ => rfl) (fun _ _ => ⟨rfl, rfl⟩) (by simp) release_handled (by decide +kernel)
      (by decide +kernel)
  obtain ⟨fits, small⟩ := short_fits (unhandled_short (UInt32.ofNat m))
  obtain ⟨d, hist', k', later, turn, answer, requests', answers⟩ :=
    handling.answer Toolkit.plain_lawful release_handled fits small
  obtain ⟨p, entry⟩ := Option.isSome_iff_exists.mp so.entry
  have kept : kh.requests .connecting 0 = some p := by rw [requests]; exact entry
  refine ⟨hist', k', p, ⟨turn, ?_, ?_, ?_⟩, ?_⟩
  · exact so.first.trans (((List.prefix_append _ _).trans here).trans later)
  · rw [requests']
    apply requests_kept
    simp [kept]
  · intro side asked payload outcome serial member
    rcases answers side asked payload outcome serial member with before | ⟨new, _⟩
    · exact so.answers side asked payload outcome serial (old _ _ _ _ _ before)
    · exact .inr new
  · intro again
    rw [requests']
    rw [again] at answer
    exact exception_stored Toolkit.plain_lawful answer kept

theorem releases (m : Nat) : ∃ past k, Releases (m + 1) past k := by
  induction m with
  | zero => exact releases_one
  | succ m ih =>
    obtain ⟨past, k, so⟩ := ih
    obtain ⟨past', k', p, more, -⟩ := so.release
    exact ⟨past', k', more⟩

/-- The call is number 0, and so is the last of 2^32 releases after it; its exception is what
`Wait` gives for the call. -/
theorem release_for_call :
    ∃ (past : List (Label .plain)) (k : Rpc .plain),
      Guarded Step Peaceful fresh (past ++ [.waited .connecting 0 (.rethrown unhandled)]) k ∧
      [.invoked .connecting 0 true call] <+: past ∧
      ¬ Answers past .connecting [] true call (.rethrown unhandled) := by
  obtain ⟨past, k, so⟩ := releases (2 ^ 32 - 1)
  obtain ⟨past', k', p, so', entry⟩ := so.release
  refine ⟨past', k', ?_, so'.first, ?_⟩
  · exact so'.turn.run.next (.wait true (entry rfl) rfl)
      (peaceful_quiet (by rintro x ⟨⟩) (by rintro side act ⟨⟩))
  · rintro ⟨handling, asked, outcome, serial, here, -, right⟩
    rcases so'.answers _ _ _ _ _ (mem_of_position here) with ⟨-, rfl⟩ | other
    · rcases right with wrong | ⟨r, same, type⟩
      · contradiction
      · cases same
        exact type rfl
    · exact absurd other (by decide +kernel)

/-! A request whose length does not fit its header. -/

/-- The plain toolkit with bytes written as four, so that an invoke begins with zeros. -/
def wide : Toolkit := { Toolkit.plain with u8 := .fixed 4 UInt8.toNat UInt8.ofNat Toolkit.eof }

theorem wide_lawful : wide.Lawful :=
  { Toolkit.plain_lawful with
    u8 := Flat.Codec.fixed_lawful (fun n => Nat.lt_trans n.toNat_lt (by decide))
      (fun _ => UInt8.ofNat_toNat) Toolkit.eof }

def shortCall : List UInt8 := invokePayload wide target ['m'] []

/-- A call whose payload has 2^32 bytes. -/
def longCall : List UInt8 :=
  invokePayload wide target ['m'] (List.replicate (2 ^ 32 - shortCall.length) 0)

theorem longCall_frame : ∃ tail, frame longCall = [0, 0, 0, 0] ++ ([0, 0, 0, 0] ++ tail) := by
  have length : longCall.length = 2 ^ 32 := by
    have head (args : List UInt8) :
        (invokePayload wide target ['m'] args).length = shortCall.length + args.length := by
      simp only [shortCall, invokePayload, List.length_append, List.length_nil]
      omega
    have short : shortCall.length ≤ 2 ^ 32 := by decide +kernel
    rw [longCall, head, List.length_replicate, Nat.add_sub_cancel' short]
  have zeros : writeU32 (2 ^ 32) = [0, 0, 0, 0] := by decide
  have type : wide.u8.write requestInvoke = [0, 0, 0, 0] := by decide
  rw [frame, length, zeros, longCall, invokePayload, type]
  exact ⟨_, rfl⟩

theorem empty_handled : handle wide [] (.ok ⟨true, (0 : UInt32)⟩) = some (.error Toolkit.eof) := rfl

theorem eof_short (n : UInt32) :
    (answerPayload n (.error Toolkit.eof : Outcome wide)).length ≤ 1024 := by
  have serial : (wide.u32.write n).length = 4 := rfl
  have type : (wide.u8.write responseException).length = 4 := rfl
  have texts : (wide.string.write "Exception".toList ++
    wide.string.write Toolkit.eof).length ≤ 1000 := by decide +kernel
  simp only [answerPayload, exceptionPayload, List.length_append] at texts ⊢
  omega

def twoCalls : Rpc wide where
  link := .fresh

theorem empty_whole : Delimited.Whole (frames UInt8) [0, 0, 0, 0] := by decide +kernel

/-- The accepting side is handling the empty frame `n`, with `rest` behind it. -/
structure Half (k : Rpc wide) (n : UInt32) (rest : List UInt8) : Prop where
  busy : k.current .accepting = some (n, [])
  idle : k.current .connecting = none
  registered : ∀ s, (k.link.ends s).conn.socket.isSome ∧ (k.link.ends s).conn.interest.isSome
  empty : (k.link.ends .accepting).conn.writeQueue = []
  counted : (k.link.ends .accepting).conn.readSerial = n + 1
  listening : (k.link.ends .connecting).Listening
  suspended : ∃ socket, (k.link.ends .accepting).stack = [⟨socket, rest⟩]
  clear : k.link.wire .accepting = []
  entry : (k.requests .connecting 1).isSome

theorem half_read : ∃ s s' d k, Reaches Step twoCalls [.invoked .connecting 0 true longCall,
    .invoked .connecting 1 true shortCall, .moved .connecting (.wrote s [0, 0, 0, 0, 0, 0, 0, 0]),
    .moved .accepting (.read s' false [0, 0, 0, 0, 0, 0, 0, 0] (some d))] k ∧
    Half k 0 [0, 0, 0, 0] := by
  obtain ⟨tail, long⟩ := longCall_frame
  have closed : (Link.fresh.ends .connecting).conn.socket.isSome →
      (Link.fresh.ends .connecting).conn.interest.isSome := fun up => by contradiction
  obtain ⟨s₁, l₁, sent₁, mine₁, theirs₁, wires₁⟩ := send_step (frame longCall) closed
  have registered₁ : (l₁.ends .connecting).conn.interest.isSome := by rw [mine₁]; rfl
  obtain ⟨s₂, l₂, sent₂, mine₂, theirs₂, wires₂⟩ :=
    send_step (frame shortCall) fun _ => registered₁
  simp only [Side.other] at theirs₁ theirs₂
  have queue : (l₂.ends .connecting).conn.writeQueue =
      [⟨frame longCall, 0⟩, ⟨frame shortCall, 0⟩] := by
    rw [mine₂, mine₁]
    rfl
  have writes : (l₂.ends .connecting).output 8 = ([0, 0, 0, 0] ++ [0, 0, 0, 0],
      { l₂.ends .connecting with conn := ((l₂.ends .connecting).conn.output 8).2 }) := by
    rw [Endpoint.output_eq, LocalBusConnection.output_eq, queue]
    simp [LocalBusConnection.writeFront, WriteTask.getBuffer, long]
  have up : (l₂.ends .connecting).conn.socket = some s₂ := by rw [mine₂]
  have up' : (l₂.ends .accepting).conn.socket = some 0 := by rw [theirs₂, theirs₁]; rfl
  have listening : (l₂.ends .accepting).Listening := by
    rw [theirs₂, theirs₁]
    exact ⟨rfl, rfl, rfl⟩
  obtain ⟨l₃, l₄, task, d, wrote, read, given, serial, mine₄, theirs₄, clear₄, wires₄⟩ :=
    Link.carry writes up (by rw [mine₂]; rfl) (by rw [wires₂, wires₁]; rfl) empty_whole
      (by decide) listening up' (by rw [Side.other, theirs₂, theirs₁]; rfl)
  simp only [Side.other] at theirs₄ wires₄ read serial
  have one : (l₁.ends .connecting).conn.writeSerial = 1 := by rw [mine₁]; rfl
  rw [one] at sent₂
  have zero : d.serial = 0 := by rw [serial, theirs₂, theirs₁]; rfl
  have payload : d.payload = [] := by rw [Dispatch.payload_eq, given]; rfl
  let k₁ : Rpc wide := { twoCalls with
    link := l₁, requests := Function.update twoCalls.requests .connecting
      (Function.update (twoCalls.requests .connecting) 0 (some (.new true))) }
  let k₂ : Rpc wide := { k₁ with
    link := l₂, requests := Function.update k₁.requests .connecting
      (Function.update (k₁.requests .connecting) 1 (some (.new true))) }
  have busy : onIncomingData { k₂ with link := l₄ } .accepting d = _ :=
    handle_busy (by rw [payload]; exact empty_handled)
  rw [zero, payload] at busy
  have step₁ : Step twoCalls (.invoked .connecting 0 true longCall) k₁ :=
    Step.invoke (k := twoCalls) .connecting 0 true target ['m'] _ sent₁
  have step₂ : Step k₁ (.invoked .connecting 1 true shortCall) k₂ :=
    Step.invoke (k := k₁) .connecting 1 true target ['m'] [] sent₂
  have step₃ : Step k₂ (.moved .connecting (.wrote s₂ [0, 0, 0, 0, 0, 0, 0, 0]))
      { k₂ with link := l₃ } := .event wrote rfl rfl (by simp)
  have step₄ : Step { k₂ with link := l₃ }
      (.moved .accepting (.read 0 false [0, 0, 0, 0, 0, 0, 0, 0] (some d)))
      (onIncomingData { k₂ with link := l₄ } .accepting d) := .dispatch read rfl rfl
  refine ⟨s₂, 0, d, _, .next step₁ (.next step₂ (.next step₃ (.single step₄))), ?_⟩
  rw [busy]
  constructor
  case busy => simp
  case idle => rfl
  case registered =>
    apply both
    · simp only [mine₄, LocalBusConnection.output_eq, mine₂]
      split <;> exact ⟨rfl, rfl⟩
    · simp only [theirs₄, theirs₂, theirs₁]
      exact ⟨rfl, rfl⟩
  case empty =>
    simp only [theirs₄, theirs₂, theirs₁]
    rfl
  case counted =>
    simp only [theirs₄, theirs₂, theirs₁]
    rfl
  case listening =>
    simp only [mine₄, LocalBusConnection.output_eq, mine₂, mine₁]
    exact ⟨rfl, rfl, rfl⟩
  case suspended => exact ⟨0, by simp only [theirs₄]⟩
  case clear =>
    simp only [wires₄, wires₂, wires₁]
    rfl
  case entry => simp [k₂]

/-- The answer to the empty frame `n`, on its way to the parser of another request. -/
def eofAnswer (n : UInt32) : List UInt8 :=
  frame (answerPayload n (.error Toolkit.eof : Outcome wide))

def answering (n serial : UInt32) (s s' : SocketId) (d : Dispatch UInt8) : List (Label wide) :=
  [.answered .accepting n [] (.error Toolkit.eof) serial,
    .moved .accepting (.wrote s (eofAnswer n)),
    .moved .connecting (.read s' false (eofAnswer n) (some d)), .moved .connecting (.handled none)]

theorem Half.answer {k : Rpc wide} {n : UInt32} {rest : List UInt8} (half : Half k n rest) :
    ∃ serial s s' d k', Reaches Step k (answering n serial s s' d) k' ∧
      (∀ side, k'.current side = none) ∧
      (∀ s, (k'.link.ends s).conn.socket.isSome ∧ (k'.link.ends s).conn.interest.isSome) ∧
      (k'.link.ends .accepting).conn.writeQueue = [] ∧
      (k'.link.ends .accepting).conn.readSerial = n + 1 ∧
      (k'.link.ends .connecting).Listening ∧
      (k'.link.ends .accepting).stack = (k.link.ends .accepting).stack ∧
      k'.link.wire .accepting = [] ∧ (k'.requests .connecting 1).isSome ∧
      (n = 1 → ∃ p : ResponseParser wide,
        k'.requests .connecting 1 = some (p.setException Toolkit.eof)) := by
  obtain ⟨fits, small⟩ := short_fits (eof_short n)
  obtain ⟨serial, s, s', d, k₁, k₂, k₃, k₄, answered, wrote, read, returned, answer, requests,
      current, mine, theirs, clear, wires⟩ :=
    reply wide_lawful half.busy empty_handled (half.registered _).2 half.empty half.clear
      half.listening (half.registered _).1 (half.registered _).2 half.idle fits small
  simp only [Side.other] at read returned theirs wires requests
  obtain ⟨p, entry⟩ := Option.isSome_iff_exists.mp half.entry
  refine ⟨serial, s, s', d, k₄, .next answered (.next wrote (.next read (.single returned))),
    both ?_ ?_, both ?_ ?_, ?_, ?_, ?_, ?_, clear, ?_, ?_⟩
  · simp [current, half.idle]
  · simp [current]
  · simpa [theirs] using half.registered .connecting
  · simp [mine]
  · simp [mine, half.empty]
  · simp [mine, half.counted]
  · simp only [theirs]
    exact ⟨rfl, rfl, rfl⟩
  · simp [mine]
  · rw [requests]
    exact requests_kept half.entry
  · rintro rfl
    exact ⟨p, by rw [requests]; exact exception_stored wide_lawful answer entry⟩

theorem Half.next {k : Rpc wide} {n : UInt32} {rest : List UInt8}
    (half : Half k n ([0, 0, 0, 0] ++ rest)) :
    ∃ serial s s' d d' k', Reaches Step k
      (answering n serial s s' d ++ [.moved .accepting (.handled (some d'))]) k' ∧
      Half k' (n + 1) rest := by
  obtain ⟨serial, s, s', d, k', run, idle, registered, empty, counted, listening, stack, clear,
    entry, -⟩ := half.answer
  obtain ⟨socket, suspended⟩ := half.suspended
  obtain ⟨task, d', link, returned, given, number, mine, theirs, wires⟩ :=
    continue_step (stack.trans suspended) empty_whole
  simp only [Side.other] at theirs
  have payload : d'.payload = [] := by rw [Dispatch.payload_eq, given]; rfl
  have busy : onIncomingData { k' with link } .accepting d' = _ :=
    handle_busy (by rw [payload]; exact empty_handled)
  rw [payload, number, counted] at busy
  refine ⟨serial, s, s', d, d', _, run.snoc (.dispatch returned rfl (idle _)), ?_⟩
  rw [busy]
  constructor
  case busy => simp
  case idle => simp [idle]
  case registered =>
    apply both
    · simpa [theirs] using registered .connecting
    · simpa [mine] using registered .accepting
  case empty => simpa [mine] using empty
  case counted => simp [mine, counted]
  case listening => simpa [theirs] using listening
  case suspended => exact ⟨socket, by simp [mine]⟩
  case clear => simpa [wires] using clear
  case entry => exact entry

/-- The first eight bytes of the long call are two empty frames, and the second of them is
answered in the place of the other call. -/
theorem fragment_for_call :
    ∃ (past : List (Label wide)) (k : Rpc wide),
      Reaches Step twoCalls (past ++ [.waited .connecting 1 (.rethrown Toolkit.eof)]) k ∧
      (∀ x ∈ links past, x.2 ≠ .hungUp ∧ x.2.nestedInput = false) ∧
      (sent .connecting past).length = 2 ∧ (sent .accepting past).length = 2 ∧
      [.invoked .connecting 0 true longCall] ++ [.invoked .connecting 1 true shortCall] <+: past ∧
      ¬ Answers past .connecting [.invoked .connecting 0 true longCall] true shortCall
        (.rethrown Toolkit.eof) := by
  obtain ⟨s₁, s₂, d, k, read, half⟩ := half_read
  obtain ⟨serial, s₃, s₄, d₁, d₂, k₁, first, half₁⟩ := half.next
  obtain ⟨serial', s₅, s₆, d₃, k₂, second, -, -, -, -, -, -, -, -, entry⟩ := half₁.answer
  obtain ⟨p, entry⟩ := entry rfl
  have run := (read.trans (first.trans second)).snoc (.wait true entry rfl)
  refine ⟨_, _, run, ?_, ?_, ?_, ⟨_, rfl⟩, ?_⟩
  · simp [links, answering, Label.link, Label.nestedInput]
  · simp [sent, answering, Label.sent, Label.link, Link.of, sentFrames, Label.sentData]
  · simp [sent, answering, Label.sent, Label.link, Link.of, sentFrames, Label.sentData]
  · rintro ⟨handling, asked, outcome, answer, here, -⟩
    have member := mem_of_position here
    have given : shortCall ≠ [] := by decide +kernel
    simp [answering, given] at member

end Rpc

/-- Neither bound can be left out: the length of a payload, and the frames sent before `Wait`. -/
theorem answers_confused :
    (∃ (past : List (Rpc.Label Rpc.wide)) (k : Rpc Rpc.wide),
      Reaches Rpc.Step Rpc.twoCalls
        (past ++ [.waited .connecting 1 (.rethrown Toolkit.eof)]) k ∧
      (∀ x ∈ Rpc.links past, x.2 ≠ .hungUp ∧ x.2.nestedInput = false) ∧
      (Rpc.sent .connecting past).length = 2 ∧ (Rpc.sent .accepting past).length = 2 ∧
      [.invoked .connecting 0 true Rpc.longCall] ++
        [.invoked .connecting 1 true Rpc.shortCall] <+: past ∧
      ¬ Rpc.Answers past .connecting [.invoked .connecting 0 true Rpc.longCall] true
        Rpc.shortCall (.rethrown Toolkit.eof)) ∧
    ∃ (past : List (Rpc.Label .plain)) (k : Rpc .plain),
      Guarded Rpc.Step Rpc.Peaceful Rpc.fresh
        (past ++ [.waited .connecting 0 (.rethrown Rpc.unhandled)]) k ∧
      [.invoked .connecting 0 true Rpc.call] <+: past ∧
      ¬ Rpc.Answers past .connecting [] true Rpc.call (.rethrown Rpc.unhandled) :=
  ⟨Rpc.fragment_for_call, Rpc.release_for_call⟩

end PBus
