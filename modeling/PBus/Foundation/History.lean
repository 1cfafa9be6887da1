import Mathlib.Data.List.Induction

/-! Positions in a history. Every label of a history gives an output or none; a position is a
beginning of the history, and the outputs are numbered in their order. -/
namespace History
variable {L A : Type} {f : L → List A}

theorem count_le (f : L → List A) {before hist : List L} (here : before <+: hist) :
    (before.flatMap f).length ≤ (hist.flatMap f).length := by
  obtain ⟨rest, rfl⟩ := here
  simp

theorem output_at {before hist : List L} {l : L} {x : A} (here : before ++ [l] <+: hist)
    (gives : f l = [x]) : (hist.flatMap f)[(before.flatMap f).length]? = some x := by
  obtain ⟨rest, rfl⟩ := here
  simp [gives]

theorem count_lt {before hist : List L} {l : L} {x : A} (here : before ++ [l] <+: hist)
    (gives : f l = [x]) : (before.flatMap f).length < (hist.flatMap f).length :=
  (List.getElem?_eq_some_iff.mp (output_at here gives)).1

theorem output_origin {hist : List L} {m : Nat} {x : A} (single : ∀ l, (f l).length ≤ 1)
    (output : (hist.flatMap f)[m]? = some x) :
    ∃ before l, before ++ [l] <+: hist ∧ (before.flatMap f).length = m ∧ f l = [x] := by
  induction hist using List.reverseRecOn with
  | nil => simp at output
  | append_singleton past l ih =>
    rw [List.flatMap_append] at output
    by_cases earlier : m < (past.flatMap f).length
    · rw [List.getElem?_append_left earlier] at output
      obtain ⟨before, l', here, rest⟩ := ih output
      exact ⟨before, l', here.trans (List.prefix_append _ _), rest⟩
    · rw [List.getElem?_append_right (Nat.le_of_not_lt earlier)] at output
      cases gives : f l with
      | nil => simp [gives] at output
      | cons y ys =>
        have short := single l
        simp only [gives, List.length_cons] at short
        obtain rfl : ys = [] := List.eq_nil_of_length_eq_zero (by omega)
        obtain ⟨number, rfl⟩ : m - (past.flatMap f).length = 0 ∧ y = x := by
          cases rest : m - (past.flatMap f).length <;> simp_all
        exact ⟨past, l, List.prefix_refl _, by omega, gives⟩

theorem party_append {P : Type} [DecidableEq P] (party p : P) (past : List (P × L)) (l : L) :
    (past ++ [(p, l)]).filterMap (fun step => if step.1 = party then some step.2 else none) =
      past.filterMap (fun step => if step.1 = party then some step.2 else none) ++
        if p = party then [l] else [] := by
  simp only [List.filterMap_append, List.filterMap_cons, List.filterMap_nil]
  split <;> simp_all

theorem position_before {before hist : List L} {l last : L}
    (here : before ++ [l] <+: hist ++ [last]) (other : l ≠ last) : before ++ [l] <+: hist := by
  rcases List.prefix_concat_iff.mp here with same | earlier
  · exact absurd (List.singleton_inj.mp (List.append_inj' same rfl).2) other
  · exact earlier

theorem position_cases {before before' hist : List L} {l l' : L} (here : before ++ [l] <+: hist)
    (there : before' ++ [l'] <+: hist) :
    before = before' ∧ l = l' ∨ before ++ [l] <+: before' ∨ before' ++ [l'] <+: before := by
  rcases Nat.lt_trichotomy before.length before'.length with less | same | more
  · refine .inr (.inl (List.prefix_of_prefix_length_le here
      ((List.prefix_append _ _).trans there) ?_))
    simpa [Nat.succ_le_iff] using less
  · left
    have equal := (List.prefix_of_prefix_length_le here there (by simp [same])).eq_of_length
      (by simp [same])
    obtain ⟨rfl, label⟩ := List.append_inj equal same
    exact ⟨rfl, List.singleton_inj.mp label⟩
  · refine .inr (.inr (List.prefix_of_prefix_length_le there
      ((List.prefix_append _ _).trans here) ?_))
    simpa [Nat.succ_le_iff] using more

end History
