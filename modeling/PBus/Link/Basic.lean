import PBus.Connection.Outgoing
import PBus.Connection.Reentrancy
import PBus.Foundation.History
import Mathlib.Logic.Function.Basic

/-! Two connections joined by one socket pair: the one that connects and the one that
`LocalBus::Accept` makes for it. Each side takes its steps on its own; what it writes is
read by the other in order, in pieces of any size. -/
namespace PBus
open Transition Connection

inductive Side where
  | connecting
  | accepting
  deriving DecidableEq, Repr

namespace Side

def other : Side → Side
  | connecting => accepting
  | accepting => connecting

@[simp] theorem other_other (s : Side) : s.other.other = s := by cases s <;> rfl

@[simp] theorem other_ne (s : Side) : s.other ≠ s := by cases s <;> decide

@[simp] theorem ne_other (s : Side) : s ≠ s.other := (other_ne s).symm

theorem eq_or_other (s t : Side) : s = t ∨ s = t.other := by cases s <;> cases t <;> simp [other]

end Side

/-- `wire s` is what side `s` has written and the other side has not read. -/
structure Link where
  ends : Side → Endpoint UInt8
  wire : Side → List UInt8

def Connection.Label.written (l : Label UInt8) : List UInt8 := l.wroteOn.toList.flatMap Prod.snd

namespace Link

/-- After a step of `side` that led to `e` and left `rest` of what the other side wrote. -/
def after (k : Link) (side : Side) (l : Label UInt8) (e : Endpoint UInt8) (rest : List UInt8) :
    Link where
  ends := Function.update k.ends side e
  wire s := if s = side then k.wire side ++ l.written else rest

inductive Step : Link → Side × Label UInt8 → Link → Prop where
  | at : Endpoint.Step (k.ends side) l e → k.wire side.other = l.received ++ rest →
      Step k (side, l) (k.after side l e rest)

/-- What can happen on a side; input takes what is first under way to it. -/
def perform (k : Link) (event : Side × Endpoint.Event UInt8) :
    Option ((Side × Label UInt8) × Link) :=
  match (k.ends event.1).perform event.2 with
  | some (l, e) =>
    if l.received = (k.wire event.1.other).take l.received.length then
      some ((event.1, l),
        k.after event.1 l e ((k.wire event.1.other).drop l.received.length))
    else none
  | none => none

theorem perform_step {k k' : Link} {event : Side × Endpoint.Event UInt8} {l : Side × Label UInt8}
    (performed : k.perform event = some (l, k')) : Step k l k' := by
  unfold perform at performed
  split at performed
  · rename_i label e step
    split at performed
    · rename_i taken
      simp only [Option.some.injEq, Prod.mk.injEq] at performed
      obtain ⟨rfl, rfl⟩ := performed
      exact .at (Endpoint.perform_step step)
        ((List.take_append_drop _ _).symm.trans (congrArg (· ++ _) taken.symm))
    · contradiction
  · contradiction

theorem played (C : List (Side × Label UInt8) → Link → Side × Label UInt8 → Prop)
    [∀ past k l, Decidable (C past k l)] (start : Link)
    (events : List (Side × Endpoint.Event UInt8)) :
    Guarded Step C start (Transition.play perform C [] start events).1
      (Transition.play perform C [] start events).2 :=
  Transition.play_guarded perform C perform_step .start events

/-- Both connections as their constructors leave them, and nothing written. -/
inductive Started : Link → Prop where
  | joined : (k.ends .connecting).Started → (k.ends .accepting).Started → k.wire = (fun _ => []) →
      Started k

theorem Started.ends {k : Link} (started : Started k) (side : Side) : (k.ends side).Started := by
  obtain ⟨connecting, accepting, _⟩ := started
  cases side
  · exact connecting
  · exact accepting

def of (side : Side) (hist : List (Side × Label UInt8)) : List (Label UInt8) :=
  hist.filterMap fun step => if step.1 = side then some step.2 else none

@[simp] theorem of_append (side s : Side) (past : List (Side × Label UInt8)) (l : Label UInt8) :
    of side (past ++ [(s, l)]) = of side past ++ if s = side then [l] else [] :=
  History.party_append side s past l

theorem mem_of {side : Side} {hist : List (Side × Label UInt8)} {l : Label UInt8} :
    l ∈ of side hist ↔ (side, l) ∈ hist := by
  simp [of]

theorem end_run {start k : Link} {hist : List (Side × Label UInt8)}
    (run : Reaches Step start hist k) (side : Side) :
    Reaches Endpoint.Step (start.ends side) (of side hist) (k.ends side) := by
  refine run.history (P := fun hist k => Reaches Endpoint.Step (start.ends side) (of side hist)
    (k.ends side)) ?_ (.refl _)
  rintro past k ⟨s, l⟩ k' before ⟨step⟩
  rw [of_append]
  by_cases here : s = side
  · subst here
    simpa [after] using before.snoc step
  · simpa [after, here, Function.update_of_ne (Ne.symm here)] using before

/-- What one side has written is what the other has read and what is under way. -/
theorem wire_run {start k : Link} {hist : List (Side × Label UInt8)} (started : Started start)
    (run : Reaches Step start hist k) (side : Side) :
    bytesWritten (of side hist) = bytesRead (of side.other hist) ++ k.wire side := by
  obtain ⟨_, _, silent⟩ := started
  refine run.history (P := fun hist k => ∀ side, bytesWritten (of side hist) =
    bytesRead (of side.other hist) ++ k.wire side) ?_ ?_ side
  · rintro past k ⟨s, l⟩ k' before ⟨step, taken⟩ side
    rcases Side.eq_or_other side s with rfl | rfl
    · simp [after, bytesWritten_append, Label.written, before]
    · simp [after, before, taken, bytesRead]
  · intro side
    simp [silent, of, bytesWritten, bytesRead]

end Link
end PBus
