import Mathlib.Data.List.Basic
import Mathlib.Data.Nat.Init

/-! Pieces of streams that are written one after the other: every piece has the number of its
stream, and no stream goes on behind a later one. -/
namespace Streams
variable {β : Type}

/-- What is written on a stream. -/
def on (n : Nat) (ws : List (Nat × List β)) : List β :=
  ws.flatMap fun w => if w.1 = n then w.2 else []

/-- What is written on the streams before. -/
def below (n : Nat) (ws : List (Nat × List β)) : List β :=
  ws.flatMap fun w => if w.1 < n then w.2 else []

def InOrder (ws : List (Nat × List β)) : Prop := ws.Pairwise fun v w => v.1 ≤ w.1

variable {ws : List (Nat × List β)}

theorem below_append (n : Nat) (ws vs : List (Nat × List β)) :
    below n (ws ++ vs) = below n ws ++ below n vs := by simp [below]

theorem below_nil (later : ∀ w ∈ ws, n ≤ w.1) : below n ws = [] := by
  refine List.flatMap_eq_nil_iff.mpr fun w member => ?_
  rw [if_neg (Nat.not_lt.mpr (later w member))]

theorem below_all (earlier : ∀ w ∈ ws, w.1 < n) : below n ws = ws.flatMap Prod.snd := by
  rw [below, List.flatMap_def, List.flatMap_def]
  congr 1
  exact List.map_congr_left fun w member => if_pos (earlier w member)

theorem mem_of_on (some' : on n ws ≠ []) : ∃ w ∈ ws, w.1 = n := by
  by_contra none
  refine some' (List.flatMap_eq_nil_iff.mpr fun w member => ?_)
  rw [if_neg fun here => none ⟨w, member, here⟩]

theorem below_succ (inOrder : InOrder ws) (n : Nat) :
    below (n + 1) ws = below n ws ++ on n ws := by
  induction ws with
  | nil => rfl
  | cons w ws ih =>
    obtain ⟨first, rest⟩ := List.pairwise_cons.mp inOrder
    have ih := ih rest
    simp only [below, on, List.flatMap_cons] at ih ⊢
    rcases Nat.lt_trichotomy w.1 n with earlier | here | later
    · rw [if_pos (Nat.lt_succ_of_lt earlier), if_pos earlier, if_neg (Nat.ne_of_lt earlier), ih]
      simp
    · have none : below n ws = [] := below_nil fun v member => here ▸ first v member
      rw [below] at none
      rw [none] at ih ⊢
      rw [ih, here]
      simp
    · have none : below (n + 1) ws = [] :=
        below_nil fun v member => Nat.le_trans later (first v member)
      rw [below] at none
      rw [none] at ih
      rw [if_neg (by omega), if_neg (by omega), if_neg (by omega), none, List.nil_append,
        List.nil_append, List.nil_append]
      exact ih

theorem below_le (inOrder : InOrder ws) (m : Nat) (later : n ≤ m) :
    below n ws <+: below m ws := by
  induction m, later using Nat.le_induction with
  | base => exact List.prefix_refl _
  | succ m _ ih =>
    rw [below_succ inOrder]
    exact ih.trans (List.prefix_append _ _)

theorem below_initial (inOrder : InOrder ws) (n : Nat) : below n ws <+: ws.flatMap Prod.snd := by
  obtain ⟨m, bound⟩ : ∃ m, ∀ w ∈ ws, w.1 < m := by
    clear inOrder
    induction ws with
    | nil => exact ⟨0, by simp⟩
    | cons w ws ih =>
      obtain ⟨m, bound⟩ := ih
      refine ⟨max m (w.1 + 1), fun v member => ?_⟩
      rcases List.mem_cons.mp member with rfl | member
      · exact Nat.lt_of_lt_of_le (Nat.lt_succ_self _) (Nat.le_max_right _ _)
      · exact Nat.lt_of_lt_of_le (bound v member) (Nat.le_max_left _ _)
  rw [← below_all (n := max n m) fun w member =>
    Nat.lt_of_lt_of_le (bound w member) (Nat.le_max_right _ _)]
  exact below_le inOrder _ (Nat.le_max_left _ _)

end Streams
