import PBus.Link.Delivery

/-! Two ends that take turns, as a generated proxy and the service it calls do: whatever the
handlers of the service poll for, no input comes while one of them runs. -/
namespace PBus
open Transition Connection

namespace Link

/-- No hang-up, and `Send` is given the frame of a payload whose length the header can hold. -/
def Framed : Side × Label UInt8 → Prop
  | (_, .hungUp) => False
  | (_, .sent _ data) => ∃ payload, data = frame payload ∧ payload.length < 2 ^ 32
  | _ => True

/-- The connecting side sends a request when all it sent has been answered, and does not poll
while it is given an answer. The other side sends one answer for each frame it is handed, and
polls inside a handler only before the answer. -/
structure InTurn (past : List (Side × Label UInt8)) (_k : Link) (step : Side × Label UInt8) :
    Prop where
  framed : Framed step
  asks : step.1 = .connecting → step.2.sentData ≠ [] →
    (sentFrames (of .connecting past)).length = (handed (of .connecting past)).length
  answers : step.1 = .accepting → step.2.sentData ≠ [] →
    (sentFrames (of .accepting past)).length < (handed (of .accepting past)).length
  stores : step.1 = .connecting → step.2.nestedInput = false
  polls : step.1 = .accepting → step.2.nestedInput = true →
    (sentFrames (of .accepting past)).length < (handed (of .accepting past)).length

theorem Framed.calm {step : Side × Label UInt8} (framed : Framed step)
    (unnested : step.2.nestedInput = false) : Calm step := by
  obtain ⟨side, l⟩ := step
  cases l with
  | hungUp => exact framed
  | sent => exact framed
  | read => exact unnested
  | refused | wrote | handled => trivial

theorem numbered_length {β : Type} (us : List (List β)) : (numbered us).length = us.length := by
  simp [numbered, numberedFrom]

theorem handed_all {start k : Link} {hist : List (Side × Label UInt8)} (started : Started start)
    (run : Reaches Step start hist k) (calm : ∀ l ∈ hist, Calm l) {side : Side}
    (all : (sentFrames (of side hist)).length ≤ (handed (of side.other hist)).length) :
    k.wire side = [] := by
  obtain ⟨us, inOrder, first, -⟩ := handed_sent started run calm side
  rw [inOrder, numbered_length] at all
  obtain rfl := first.eq_of_length_le all
  have flow := Outflow.run (started.ends side) (end_run run side)
  cases Reentrancy.progress_run (started.ends side.other) (end_run run side.other) with
  | sequential vs quiet decoding inOrder' =>
    have same := congrArg (List.map Prod.snd) (inOrder.symm.trans inOrder')
    rw [numbered, numbered, numberedFrom_frames, numberedFrom_frames] at same
    obtain ⟨rest, read⟩ : ∃ rest, bytesRead (of side.other hist) = vs.flatten ++ rest := by
      cases stack : (k.ends side.other).stack with
      | nil => exact ⟨_, (decoding.idle stack).2⟩
      | cons a below => exact ⟨_, (decoding.busy a below stack).2.2.2⟩
    have bytes := congrArg List.length flow.bytes
    rw [wire_run started run side, read, same] at bytes
    simp only [List.length_append] at bytes
    exact List.length_eq_zero_iff.mp (by omega)
  | «repeated» before after first second u nested =>
    obtain ⟨l, hl, nested⟩ := nested
    have met := calm _ (mem_of.mp hl)
    cases l <;> simp_all [Calm, Label.nestedInput]

/-- What has been sent and answered so far. -/
structure Turns (past : List (Side × Label UInt8)) : Prop where
  calm : ∀ l ∈ past, Calm l
  asked : (sentFrames (of .connecting past)).length ≤ (handed (of .connecting past)).length + 1
  answered : (sentFrames (of .accepting past)).length ≤ (handed (of .accepting past)).length

theorem handed_le {start k : Link} {hist : List (Side × Label UInt8)} (started : Started start)
    (run : Reaches Step start hist k) (calm : ∀ l ∈ hist, Calm l) (side : Side) :
    (handed (of side.other hist)).length ≤ (sentFrames (of side hist)).length := by
  obtain ⟨us, inOrder, first, -⟩ := handed_sent started run calm side
  rw [inOrder, numbered_length]
  exact first.length_le

/-- While an answer is owed no input comes: all that was sent has been handed over. -/
theorem Turns.silent {start k : Link} {past : List (Side × Label UInt8)} (turns : Turns past)
    (started : Started start) (run : Reaches Step start past k)
    (owed : (sentFrames (of .accepting past)).length < (handed (of .accepting past)).length) :
    k.wire .connecting = [] := by
  have requests := handed_le started run turns.calm .connecting
  have answers := handed_le started run turns.calm .accepting
  have asked := turns.asked
  apply handed_all started run turns.calm
  simp only [Side.other] at *
  omega

theorem stack_single {start k : Link} {hist : List (Side × Label UInt8)} (started : Started start)
    (run : Reaches Step start hist k) (calm : ∀ l ∈ hist, Calm l) (side : Side) :
    (k.ends side).stack.length ≤ 1 := by
  cases Reentrancy.progress_run (started.ends side) (end_run run side) with
  | sequential us quiet decoding =>
    cases stack : (k.ends side).stack with
    | nil => exact Nat.zero_le _
    | cons a below =>
      rw [(decoding.busy a below stack).1]
      exact Nat.le_refl _
  | «repeated» before after first second u nested =>
    obtain ⟨l, member, nested⟩ := nested
    have met := calm _ (mem_of.mp member)
    cases l <;> simp_all [Calm, Label.nestedInput]

theorem sent_single (l : Label UInt8) : l.sentData.length ≤ 1 := by
  cases l <;> simp [Label.sentData]

theorem sent_count (side : Side) (past : List (Side × Label UInt8)) (step : Side × Label UInt8) :
    (sentFrames (of side (past ++ [step]))).length = (sentFrames (of side past)).length +
      if step.1 = side then step.2.sentData.length else 0 := by
  rw [of_append]
  split
  · rw [sentFrames_append, List.length_append]
  · rw [List.append_nil, Nat.add_zero]

theorem handed_grows (side : Side) (past : List (Side × Label UInt8))
    (step : Side × Label UInt8) :
    (handed (of side past)).length ≤ (handed (of side (past ++ [step]))).length := by
  rw [of_append]
  split
  · rw [Reentrancy.handed_append, List.length_append]
    exact Nat.le_add_right _ _
  · simp

theorem InTurn.unnested {start k k' : Link} {past : List (Side × Label UInt8)}
    {step : Side × Label UInt8} (turns : Turns past) (started : Started start)
    (run : Reaches Step start past k) (moved : Step k step k') (inTurn : InTurn past k step) :
    step.2.nestedInput = false := by
  obtain ⟨side, l⟩ := step
  cases side with
  | connecting => exact inTurn.stores rfl
  | accepting =>
    by_contra nested
    rw [Bool.not_eq_false] at nested
    have empty := turns.silent started run (inTurn.polls rfl nested)
    obtain ⟨moved, taken⟩ := moved
    cases moved with
    | read up registered given =>
      simp only [Side.other, empty, Label.received] at taken
      exact given (List.append_eq_nil_iff.mp taken.symm).1
    | _ => contradiction

theorem turns_run {start k : Link} {hist : List (Side × Label UInt8)} (started : Started start)
    (run : Guarded Step InTurn start hist k) : Turns hist := by
  have both : Reaches Step start hist k ∧ Turns hist := by
    refine run.history (P := fun hist k => Reaches Step start hist k ∧ Turns hist) ?_ ?_
    · rintro past k step k' ⟨run, turns⟩ moved inTurn
      refine ⟨run.snoc moved, ?_⟩
      have bounded {side : Side} {n : Nat} (before : (sentFrames (of side past)).length ≤ n)
          (sends : step.1 = side → step.2.sentData ≠ [] →
            (sentFrames (of side past)).length + 1 ≤ n) :
          (sentFrames (of side (past ++ [step]))).length ≤ n := by
        have single := sent_single step.2
        rw [sent_count]
        split
        · rename_i own
          rcases Classical.em (step.2.sentData = []) with none | some'
          · rwa [none, List.length_nil]
          · have one := sends own some'
            omega
        · exact before
      constructor
      case calm =>
        intro m member
        rcases List.mem_append.mp member with old | new
        · exact turns.calm m old
        · rw [List.mem_singleton.mp new]
          exact inTurn.framed.calm (inTurn.unnested turns started run moved)
      case asked =>
        have grows := handed_grows .connecting past step
        apply bounded
        · exact Nat.le_trans turns.asked (Nat.succ_le_succ grows)
        · intro own some'
          rw [inTurn.asks own some']
          exact Nat.succ_le_succ grows
      case answered =>
        have grows := handed_grows .accepting past step
        apply bounded
        · exact Nat.le_trans turns.answered grows
        · exact fun own some' => Nat.le_trans (inTurn.answers own some') grows
    · exact ⟨.refl _, fun l member => by contradiction, Nat.zero_le _, Nat.le_refl _⟩
  exact both.2

instance (step : Side × Label UInt8) : Decidable (Framed step) :=
  match step with
  | (_, .hungUp) => inferInstanceAs (Decidable False)
  | (_, .sent _ data) =>
    decidable_of_iff (data = frame (data.drop 4) ∧ (data.drop 4).length < 2 ^ 32)
      ⟨fun met => ⟨_, met⟩, by rintro ⟨payload, rfl, fits⟩; exact ⟨rfl, fits⟩⟩
  | (_, .read _ _ _ _) | (_, .refused _) | (_, .wrote _ _) | (_, .handled _) =>
    inferInstanceAs (Decidable True)

instance (past : List (Side × Label UInt8)) (k : Link) (step : Side × Label UInt8) :
    Decidable (InTurn past k step) :=
  decidable_of_iff (Framed step ∧
    (step.1 = .connecting → step.2.sentData ≠ [] →
      (sentFrames (of .connecting past)).length = (handed (of .connecting past)).length) ∧
    (step.1 = .accepting → step.2.sentData ≠ [] →
      (sentFrames (of .accepting past)).length < (handed (of .accepting past)).length) ∧
    (step.1 = .connecting → step.2.nestedInput = false) ∧
    (step.1 = .accepting → step.2.nestedInput = true →
      (sentFrames (of .accepting past)).length < (handed (of .accepting past)).length))
    ⟨fun ⟨framed, asks, answers, stores, polls⟩ => ⟨framed, asks, answers, stores, polls⟩,
      fun inTurn => ⟨inTurn.framed, inTurn.asks, inTurn.answers, inTurn.stores, inTurn.polls⟩⟩

def callTwice : List (Side × Endpoint.Event UInt8) :=
  let once (n : Nat) : List (Side × Endpoint.Event UInt8) :=
    [(.connecting, .send (frame [65]) true), (.connecting, .output n),
      (.accepting, .input (frame [65])), (.accepting, .send (frame [66]) true),
      (.accepting, .output n), (.accepting, .returned), (.connecting, .input (frame [66])),
      (.connecting, .returned)]
  once 9 ++ once 9

end Link
open Link

/-- Every run of two ends that take turns, whatever the handlers of the accepting side poll for:
no input comes on the connection while one of its frames is handled, so every frame is handed
over once and in order, to one handler at a time. -/
theorem turns_exactly_once {start k : Link} {hist : List (Side × Label UInt8)}
    (started : Link.Started start) (run : Guarded Link.Step Link.InTurn start hist k) :
    (∀ step ∈ hist, step.2.nestedInput = false) ∧
    ∀ side, Link.delivered side.other hist <+: Link.offered side hist ∧
      (Link.Settled side k → Link.delivered side.other hist = Link.offered side hist) ∧
      (k.ends side).stack.length ≤ 1 := by
  have calm := (turns_run started run).calm
  have unnested : ∀ step ∈ hist, step.2.nestedInput = false := by
    rintro ⟨side, l⟩ member
    have met := calm _ member
    cases l with
    | read => exact met
    | sent | refused | wrote | handled | hungUp => rfl
  refine ⟨unnested, fun side => ?_⟩
  obtain ⟨us, inOrder, first, all⟩ := handed_sent started run.reaches calm side
  have flow := Outflow.run (started.ends side) (end_run run.reaches side)
  rw [delivered_eq, offered, inOrder, flow.serials]
  exact ⟨(numbered_initial first).map _, fun settled => by rw [all settled],
    stack_single started run.reaches calm side⟩

theorem turns_exactly_once_twice :
    ∃ (hist : List (Side × Label UInt8)) (k : Link),
      Guarded Link.Step Link.InTurn .fresh hist k ∧
      Link.delivered .accepting hist = [(0, [65]), (1, [65])] ∧
      Link.delivered .connecting hist = [(0, [66]), (1, [66])] ∧
      ∀ step ∈ hist, step.2.nestedInput = false := by
  have run := Link.played Link.InTurn .fresh Link.callTwice
  exact ⟨_, _, run, by decide +kernel, by decide +kernel,
    (turns_exactly_once (.joined (.outgoing _) (.accepted _ 0) rfl) run).1⟩

end PBus
