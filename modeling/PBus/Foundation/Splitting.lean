import Mathlib.Data.List.Basic

/-! Lists split at a separator: the parts of the standard library's `List.splitOn`. -/
namespace Splitting
variable {α : Type} [BEq α] [LawfulBEq α] {a : α} {l part q : List α}

/-- A list has no separator, or one part before the first and those behind it. -/
theorem induction (a : α) {motive : List α → Prop}
    (single : ∀ l, a ∉ l → motive l)
    (split : ∀ before behind, a ∉ before → motive behind → motive (before ++ a :: behind))
    (l : List α) : motive l := by
  induction length : l.length using Nat.strongRecOn generalizing l with
  | ind n ih =>
    by_cases member : a ∈ l
    · obtain ⟨before, behind, rfl, free⟩ := List.eq_append_cons_of_mem member
      rw [List.length_append, List.length_cons] at length
      exact split before behind free (ih behind.length (by omega) behind rfl)
    · exact single l member

theorem mem_splitOn (member : part ∈ l.splitOn a) : a ∉ part ∧ ∀ c ∈ part, c ∈ l := by
  induction l using induction a with
  | single l free =>
    rw [List.splitOn_eq_singleton free, List.mem_singleton] at member
    exact ⟨member ▸ free, fun c hc => member ▸ hc⟩
  | split before behind free ih =>
    rw [List.splitOn_append_cons_self, List.splitOn_eq_singleton free, List.mem_append,
      List.mem_singleton] at member
    rcases member with rfl | later
    · exact ⟨free, fun c hc => List.mem_append_left _ hc⟩
    · obtain ⟨none, members⟩ := ih later
      exact ⟨none, fun c hc => List.mem_append_right _ (List.mem_cons_of_mem _ (members c hc))⟩

theorem mem_splitOn_append (free : a ∉ q) (member : part ∈ (l ++ q).splitOn a) :
    part ∈ l.splitOn a ∨ q <:+ part := by
  induction l using induction a with
  | single l first =>
    have whole : a ∉ l ++ q := List.not_mem_append first free
    rw [List.splitOn_eq_singleton whole, List.mem_singleton] at member
    exact .inr (member ▸ List.suffix_append l q)
  | split before behind _ ih =>
    rw [List.append_assoc, List.cons_append, List.splitOn_append_cons_self,
      List.mem_append] at member
    rw [List.splitOn_append_cons_self, List.mem_append]
    rcases member with first | later
    · exact .inl (.inl first)
    · exact (ih later).imp .inr id

theorem getLast_splitOn (free : a ∉ q) (l : List α) :
    ((l ++ a :: q).splitOn a).getLast? = some q := by
  rw [List.splitOn_append_cons_self, List.splitOn_eq_singleton free, List.getLast?_append]
  rfl

omit [LawfulBEq α] in
theorem getLastD_mem_splitOn (a : α) (l : List α) : (l.splitOn a).getLastD [] ∈ l.splitOn a := by
  have some' := List.splitOn_ne_nil a l
  rw [List.getLastD_eq_getLast?, List.getLast?_eq_some_getLast some']
  exact List.getLast_mem some'

theorem getLastD_splitOn_eq_nil (a : α) (l : List α) :
    (l.splitOn a).getLastD [] = [] ↔ l = [] ∨ l.getLast? = some a := by
  induction l using induction a with
  | single l free =>
    rw [List.splitOn_eq_singleton free]
    change l = [] ↔ _
    refine (or_iff_left fun last => free (List.mem_of_getLast? last)).symm
  | split before behind free ih =>
    have some' := List.splitOn_ne_nil a behind
    rw [List.splitOn_append_cons_self, List.getLastD_eq_getLast?,
      List.getLast?_append_of_ne_nil _ some', ← List.getLastD_eq_getLast?, ih,
      List.getLast?_append_of_ne_nil _ (List.cons_ne_nil _ _)]
    cases behind with
    | nil => simp
    | cons b behind => simp [List.getLast?_cons_cons]

/-- A list has no separator, or a last one. -/
theorem last_separator (a : α) (l : List α) :
    a ∉ l ∨ ∃ before last, a ∉ last ∧ l = before ++ a :: last := by
  induction l using induction a with
  | single l free => exact .inl free
  | split before behind free ih =>
    rcases ih with free' | ⟨before', last, free', rfl⟩
    · exact .inr ⟨before, behind, free', rfl⟩
    · exact .inr ⟨before ++ a :: before', last, free', by simp⟩

theorem splitOn_replace {b : α} [DecidableEq α] (unused : b ∉ l) :
    (l.map fun c => if c = a then b else c).splitOn b = l.splitOn a := by
  have kept {l : List α} (free : a ∉ l) : (l.map fun c => if c = a then b else c) = l := by
    calc
      _ = l.map id := List.map_congr_left fun c member =>
        if_neg (ne_of_mem_of_not_mem member free)
      _ = l := List.map_id l
  induction l using induction a with
  | single l free =>
    rw [kept free, List.splitOn_eq_singleton unused, List.splitOn_eq_singleton free]
  | split before behind free ih =>
    rw [List.mem_append, List.mem_cons, not_or, not_or] at unused
    rw [List.map_append, List.map_cons, if_pos rfl, kept free, List.splitOn_append_cons_self,
      List.splitOn_append_cons_self, ih unused.2.2, List.splitOn_eq_singleton unused.1,
      List.splitOn_eq_singleton free]

end Splitting
