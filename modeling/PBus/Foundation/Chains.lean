import Mathlib.Order.WellFounded

/-! Chains of values, each of which leads to the next one or is the last: followed step by step,
and as a whole where no chain is endless. -/
namespace Chains
variable {α : Type} {next other : α → Option α} {a b : α}

/-- The values from one on, if the chain is not longer than the fuel. -/
def walk (next : α → Option α) : Nat → α → Option (List α)
  | 0, _ => none
  | fuel + 1, a =>
    match next a with
    | none => some [a]
    | some b => (walk next fuel b).map (a :: ·)

def Ends (next : α → Option α) : Prop := WellFounded fun b a => next a = some b

theorem Ends.of_rank (rank : α → Nat) (lower : ∀ a b, next a = some b → rank b < rank a) :
    Ends next :=
  Subrelation.wf (fun {b a} follows => lower a b follows) (measure rank).wf

def chain (ends : Ends next) (a : α) : List α :=
  match _follows : next a with
  | none => [a]
  | some b => a :: chain ends b
termination_by WellFounded.wrap ends a

section Chain
variable {ends : Ends next}

theorem chain_last (last : next a = none) : chain ends a = [a] := by
  rw [chain]
  split
  · rfl
  next follows => rw [last] at follows; contradiction

theorem chain_next (follows : next a = some b) : chain ends a = a :: chain ends b := by
  rw [chain]
  split
  next last => rw [last] at follows; contradiction
  next c also =>
    obtain rfl := Option.some.inj (also.symm.trans follows)
    rfl

/-- The chain rule: from the last value back to the first. -/
theorem induction (ends : Ends next) {motive : α → Prop}
    (last : ∀ a, next a = none → motive a)
    (step : ∀ a b, next a = some b → motive b → motive a) (a : α) : motive a := by
  induction a using WellFounded.induction ends with
  | h a ih =>
    cases follows : next a with
    | none => exact last a follows
    | some b => exact step a b follows (ih b follows)

theorem head_chain (ends : Ends next) (a : α) : ∃ rest, chain ends a = a :: rest := by
  cases follows : next a with
  | none => exact ⟨[], chain_last follows⟩
  | some b => exact ⟨chain ends b, chain_next follows⟩

theorem mem_chain_self (ends : Ends next) (a : α) : a ∈ chain ends a := by
  obtain ⟨rest, whole⟩ := head_chain ends a
  exact whole ▸ List.mem_cons_self

theorem mem_chain_next (follows : next a = some b) {c : α} (later : c ∈ chain ends b) :
    c ∈ chain ends a := by
  rw [chain_next follows]
  exact List.mem_cons_of_mem a later

end Chain

section Walk
variable {fuel : Nat} {l : List α}

theorem walk_cases (walked : walk next fuel a = some l) :
    next a = none ∧ l = [a] ∨
    ∃ b less tail, fuel = less + 1 ∧ next a = some b ∧ walk next less b = some tail ∧
      l = a :: tail := by
  cases fuel with
  | zero => contradiction
  | succ fuel =>
    simp only [walk] at walked
    split at walked
    next last => exact .inl ⟨last, (Option.some.inj walked).symm⟩
    next b follows =>
      obtain ⟨tail, further, whole⟩ := Option.map_eq_some_iff.mp walked
      exact .inr ⟨b, fuel, tail, rfl, follows, further, whole.symm⟩

theorem head_walk (walked : walk next fuel a = some l) : ∃ rest, l = a :: rest := by
  rcases walk_cases walked with ⟨_, rfl⟩ | ⟨_, _, tail, _, _, _, rfl⟩
  · exact ⟨[], rfl⟩
  · exact ⟨tail, rfl⟩

/-- Another way to go on takes the walk along a chain exactly if it agrees everywhere on it. -/
theorem walk_eq_chain_iff (ends : Ends next) (a : α) :
    (∃ fuel, walk other fuel a = some (chain ends a)) ↔ ∀ b ∈ chain ends a, other b = next b := by
  induction a using induction ends with
  | last a last =>
    rw [chain_last last, List.forall_mem_singleton, last]
    constructor
    · rintro ⟨fuel, walked⟩
      rcases walk_cases walked with ⟨stops, _⟩ | ⟨b, _, tail, _, _, further, longer⟩
      · exact stops
      · obtain ⟨rest, rfl⟩ := head_walk further
        exact absurd longer (by simp)
    · intro stops
      exact ⟨1, by simp only [walk, stops]⟩
  | step a b follows ih =>
    obtain ⟨rest, whole⟩ := head_chain ends b
    rw [chain_next follows, List.forall_mem_cons, ← ih, follows]
    constructor
    · rintro ⟨fuel, walked⟩
      rcases walk_cases walked with ⟨_, short⟩ | ⟨c, less, tail, _, also, further, same⟩
      · rw [whole] at short
        exact absurd short (by simp)
      · obtain rfl := List.tail_eq_of_cons_eq same
        obtain ⟨behind, begins⟩ := head_walk further
        obtain rfl : b = c := (List.cons.inj (whole.symm.trans begins)).1
        exact ⟨also, less, further⟩
    · rintro ⟨also, fuel, further⟩
      exact ⟨fuel + 1, by simp only [walk, also, further, Option.map_some]⟩

end Walk
end Chains
