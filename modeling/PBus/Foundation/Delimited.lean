import Mathlib.Data.List.Basic

/-! Streams made of self-delimiting units: a beginning of a unit determines, from some
symbol on, how long the unit is. Such a stream has one decomposition into whole units
and an unfinished rest, and decoding it piecewise gives the same units. -/
namespace Delimited
variable {β : Type}

/-- `measure s` is the length of the unit that `s` begins with, once `s` determines it. -/
structure Format (β : Type) where
  measure : List β → Option Nat
  pos : measure s = some n → 0 < n
  stable : measure s = some n → ∀ t, measure (s ++ t) = some n
  intrinsic : measure s = some n → n ≤ s.length → measure (s.take n) = some n

variable (d : Format β)

def Whole (u : List β) : Prop := d.measure u = some u.length

instance (u : List β) : Decidable (Whole d u) :=
  inferInstanceAs (Decidable (_ = _))

/-- No whole unit begins here yet. -/
def Partial (s : List β) : Prop := ∀ n, d.measure s = some n → s.length < n

variable {d}

theorem Whole.ne_nil (h : Whole d u) : u ≠ [] := by
  rintro rfl
  exact absurd (d.pos h) (by simp)

theorem Whole.measure_append (h : Whole d u) (s : List β) : d.measure (u ++ s) = some u.length :=
  d.stable h s

theorem Whole.not_unfinished (h : Whole d u) (s : List β) : ¬ Partial d (u ++ s) := by
  intro open'
  have short := open' _ (h.measure_append s)
  rw [List.length_append] at short
  omega

theorem Whole.append_inj (hu : Whole d u) (hv : Whole d v) (same : u ++ s = v ++ t) :
    u = v ∧ s = t := by
  have measured : some u.length = some v.length :=
    (hu.measure_append s).symm.trans (same ▸ hv.measure_append t)
  exact List.append_inj same (Option.some.inj measured)

theorem partial_nil : Partial d [] := fun _ h => d.pos h

theorem partial_or_whole (d : Format β) (s : List β) :
    Partial d s ∨ ∃ u rest, s = u ++ rest ∧ Whole d u := by
  by_cases unfinished : Partial d s
  · exact .inl unfinished
  · right
    simp only [Partial, not_forall, Nat.not_lt] at unfinished
    obtain ⟨n, measured, fits⟩ := unfinished
    refine ⟨s.take n, s.drop n, (List.take_append_drop n s).symm, ?_⟩
    rw [Whole, d.intrinsic measured fits, List.length_take_of_le fits]

variable (d) in
/-- The whole units of a stream, in order, and what is left of it. -/
def parse (s : List β) : List (List β) × List β :=
  match _measured : d.measure s with
  | none => ([], s)
  | some n =>
    if _fits : n ≤ s.length then
      let (units, rest) := parse (s.drop n)
      (s.take n :: units, rest)
    else ([], s)
termination_by s.length
decreasing_by
  have := d.pos _measured
  simp only [List.length_drop]
  omega

theorem parse_unfinished (h : Partial d s) : parse d s = ([], s) := by
  rw [parse]
  split
  · rfl
  · rename_i n measured
    have := h n measured
    rw [dif_neg (by omega)]

theorem parse_whole (h : Whole d u) (s : List β) :
    parse d (u ++ s) = (u :: (parse d s).1, (parse d s).2) := by
  rw [parse]
  split
  · rename_i absent
    rw [h.measure_append] at absent
    contradiction
  · rename_i n measured
    obtain rfl : u.length = n := Option.some.inj ((h.measure_append s).symm.trans measured)
    simp

theorem parse_units (h : ∀ u ∈ us, Whole d u) (s : List β) :
    parse d (us.flatten ++ s) = (us ++ (parse d s).1, (parse d s).2) := by
  induction us with
  | nil => simp
  | cons u rest ih =>
    have tail := ih (fun v hv => h v (List.mem_cons_of_mem _ hv))
    rw [List.flatten_cons, List.append_assoc, parse_whole (h u List.mem_cons_self), tail]
    rfl

theorem parse_sound (d : Format β) (s : List β) :
    (parse d s).1.flatten ++ (parse d s).2 = s ∧ (∀ u ∈ (parse d s).1, Whole d u) ∧
      Partial d (parse d s).2 := by
  induction h : s.length using Nat.strongRecOn generalizing s with
  | ind n ih =>
    subst h
    rcases partial_or_whole d s with unfinished | ⟨u, rest, rfl, whole⟩
    · rw [parse_unfinished unfinished]
      exact ⟨rfl, by simp, unfinished⟩
    · have shorter : rest.length < (u ++ rest).length := by
        have := List.length_pos_iff.mpr whole.ne_nil
        simp only [List.length_append]
        omega
      obtain ⟨joined, units, unfinished⟩ := ih _ shorter rest rfl
      rw [parse_whole whole]
      refine ⟨by simp [joined], ?_, unfinished⟩
      intro v hv
      rcases List.mem_cons.mp hv with rfl | hv
      · exact whole
      · exact units v hv

theorem parse_eq (h : ∀ u ∈ us, Whole d u) (unfinished : Partial d r) :
    parse d (us.flatten ++ r) = (us, r) := by
  rw [parse_units h, parse_unfinished unfinished, List.append_nil]

theorem parse_flatten (h : ∀ u ∈ us, Whole d u) : parse d us.flatten = (us, []) := by
  simpa using parse_eq h partial_nil

/-- Decoding piecewise: the unfinished rest of the first piece is carried into the second. -/
theorem parse_append (d : Format β) (s t : List β) :
    parse d (s ++ t) = ((parse d s).1 ++ (parse d ((parse d s).2 ++ t)).1,
      (parse d ((parse d s).2 ++ t)).2) := by
  obtain ⟨joined, units, _⟩ := parse_sound d s
  conv_lhs => rw [← joined, List.append_assoc]
  exact parse_units units _

theorem parse_initial (d : Format β) (s t : List β) : (parse d s).1 <+: (parse d (s ++ t)).1 := by
  rw [parse_append]
  exact List.prefix_append _ _

end Delimited
