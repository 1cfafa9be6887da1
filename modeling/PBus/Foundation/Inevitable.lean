import PBus.Foundation.Transition
import Mathlib.Algebra.Order.BigOperators.Group.Finset
import Mathlib.Order.WellFounded

/-! What every run comes to, whichever of the possible steps it takes. Nothing here is about a
particular machine. -/
namespace Transition
variable {S L : Type}

/-- From `s`, reached by `past`, every run of steps that meet `C` comes to where `R` holds, and
until then there is such a step. -/
inductive Inevitably (step : S → L → S → Prop) (C : List L → S → L → Prop)
    (R : List L → S → Prop) : List L → S → Prop where
  | here : R past s → Inevitably step C R past s
  | next : step s l t → C past s l →
      (∀ l t, step s l t → C past s l → Inevitably step C R (past ++ [l]) t) →
      Inevitably step C R past s

namespace Inevitably
variable {step : S → L → S → Prop} {C : List L → S → L → Prop} {R : List L → S → Prop}

/-- The measure rule: an invariant under which there is always a step to take while `R` does
not hold, and a measure that every step makes less. -/
theorem of_measure {A : Type} {less : A → A → Prop} (wellFounded : WellFounded less)
    (m : List L → S → A) {I : List L → S → Prop}
    (kept : ∀ {past s l t}, I past s → step s l t → C past s l → I (past ++ [l]) t)
    (lessens : ∀ {past s l t}, I past s → step s l t → C past s l →
      less (m (past ++ [l]) t) (m past s))
    (moves : ∀ {past s}, I past s → ¬ R past s → ∃ l t, step s l t ∧ C past s l)
    (holds : I past s) : Inevitably step C R past s := by
  induction same : m past s using wellFounded.induction generalizing past s with
  | _ a ih =>
    subst same
    by_cases done : R past s
    · exact .here done
    · obtain ⟨l, t, head, met⟩ := moves holds done
      refine .next head met fun l t head met => ?_
      exact ih _ (lessens holds head met) (kept holds head met) rfl

end Inevitably

/-- Where one part of many makes its measure less, the parts together do. -/
theorem lex_sum {ι : Type} [Fintype ι] {f g : ι → Nat × Nat} (i : ι)
    (less : Prod.Lex (· < ·) (· < ·) (f i) (g i)) (others : ∀ j, j ≠ i → f j = g j) :
    Prod.Lex (· < ·) (· < ·) (∑ j, (f j).1, ∑ j, (f j).2) (∑ j, (g j).1, ∑ j, (g j).2) := by
  have elsewhere (p : Nat × Nat → Nat) (bound : p (f i) ≤ p (g i)) :
      ∀ j ∈ Finset.univ, p (f j) ≤ p (g j) := by
    intro j _
    by_cases here : j = i
    · exact here ▸ bound
    · rw [others j here]
  rcases Prod.lex_iff.mp less with first | ⟨same, second⟩
  · apply Prod.Lex.left
    exact Finset.sum_lt_sum (elsewhere Prod.fst (Nat.le_of_lt first)) ⟨i, Finset.mem_univ i, first⟩
  · have equal : ∑ j, (f j).1 = ∑ j, (g j).1 := by
      refine Finset.sum_congr rfl fun j _ => ?_
      by_cases here : j = i
      · exact here ▸ same
      · rw [others j here]
    rw [equal]
    apply Prod.Lex.right
    exact Finset.sum_lt_sum (elsewhere Prod.snd (Nat.le_of_lt second))
      ⟨i, Finset.mem_univ i, second⟩

end Transition
