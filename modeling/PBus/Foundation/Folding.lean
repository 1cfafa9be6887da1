import PBus.Foundation.Throwing
import Mathlib.Data.List.Forall2

/-! Loops over a list that throw at a bad element and add something for each good one. -/
namespace Folding
open Throwing
variable {S A B E : Type} {step : S → A → Except E S}

/-- What one turn of the loop does. -/
structure Collects (step : S → A → Except E S) (good : A → Prop) (out : S → List B)
    (shows : A → B → Prop) : Prop where
  ends : ∀ s a, good a → ∃ s', step s a = .ok s'
  adds : ∀ {s a s'}, step s a = .ok s' → good a ∧ ∃ b, out s' = out s ++ [b] ∧ shows a b

namespace Collects
variable {good : A → Prop} {out : S → List B} {shows : A → B → Prop} {s s' : S} {l : List A}

theorem fold_ends (collects : Collects step good out shows) (all : ∀ a ∈ l, good a) (s : S) :
    ∃ s', l.foldlM step s = .ok s' := by
  induction l generalizing s with
  | nil => exact ⟨s, rfl⟩
  | cons a l ih =>
    obtain ⟨s₁, ran⟩ := collects.ends s a (all a List.mem_cons_self)
    obtain ⟨s', rest⟩ := ih (fun b hb => all b (List.mem_cons_of_mem _ hb)) s₁
    refine ⟨s', ?_⟩
    rw [List.foldlM_cons, ran]
    exact rest

/-- The whole loop: every element was good, and it is shown once, in order. -/
theorem fold_adds (collects : Collects step good out shows) (ran : l.foldlM step s = .ok s') :
    (∀ a ∈ l, good a) ∧ ∃ bs, out s' = out s ++ bs ∧ List.Forall₂ shows l bs := by
  induction l generalizing s with
  | nil =>
    obtain rfl := Except.ok.inj ran
    exact ⟨fun a ha => absurd ha List.not_mem_nil, [], (List.append_nil _).symm, .nil⟩
  | cons a l ih =>
    rw [List.foldlM_cons] at ran
    obtain ⟨s₁, first, rest⟩ := ok_of_bind ran
    obtain ⟨good, b, added, shown⟩ := collects.adds first
    obtain ⟨all, bs, more, shows⟩ := ih rest
    refine ⟨List.forall_mem_cons.mpr ⟨good, all⟩, b :: bs, ?_, .cons shown shows⟩
    rw [more, added, List.append_assoc, List.singleton_append]

end Collects

theorem fold_keeps {K : Type} {kept : S → K} {s s' : S} {l : List A}
    (keeps : ∀ {s a s'}, step s a = .ok s' → kept s' = kept s)
    (ran : l.foldlM step s = .ok s') : kept s' = kept s := by
  induction l generalizing s with
  | nil => rw [Except.ok.inj ran]
  | cons a l ih =>
    rw [List.foldlM_cons] at ran
    obtain ⟨s₁, first, rest⟩ := ok_of_bind ran
    exact (ih rest).trans (keeps first)

theorem fold_invariant {P : S → Prop} {s s' : S} {l : List A}
    (keeps : ∀ {s a s'}, step s a = .ok s' → P s → P s') (ran : l.foldlM step s = .ok s')
    (holds : P s) : P s' := by
  induction l generalizing s with
  | nil => exact Except.ok.inj ran ▸ holds
  | cons a l ih =>
    rw [List.foldlM_cons] at ran
    obtain ⟨s₁, first, rest⟩ := ok_of_bind ran
    exact ih rest (keeps first holds)

end Folding
