import Mathlib.Data.Finite.Defs
import Mathlib.Data.Fintype.EquivFin
import Mathlib.Data.Finset.Max
import Mathlib.Logic.Function.Basic

/-! Stacks of calls in several places, where a call may wait for one in another place. If it
always began before the one it waits for, the places do not wait for each other in a circle. -/
namespace Nesting
variable {P T : Type} {waitsFor : T → T → Prop} {tasks : P → List T} {t : T}

/-- When each call began. The innermost call of a place, which comes first, began last. -/
structure Dates (waitsFor : T → T → Prop) (tasks : P → List T) (dated : P → List (Nat × T))
    (now : Nat) : Prop where
  tasks : ∀ p, (dated p).map Prod.snd = tasks p
  nested : ∀ p, (dated p).Pairwise fun inner outer => outer.1 < inner.1
  past : ∀ p, ∀ c ∈ dated p, c.1 < now
  before : ∀ p q, ∀ c ∈ dated p, ∀ d ∈ dated q, waitsFor c.2 d.2 → c.1 < d.1

def Dated (waitsFor : T → T → Prop) (tasks : P → List T) : Prop :=
  ∃ dated now, Dates waitsFor tasks dated now

namespace Dated

theorem start : Dated waitsFor fun _ : P => [] :=
  ⟨fun _ => [], 0, fun _ => rfl, fun _ => .nil, by simp, by simp⟩

variable [DecidableEq P]

theorem push (dated : Dated waitsFor tasks) {p : P} (self : ¬ waitsFor t t)
    (fresh : ∀ q, ∀ t' ∈ tasks q, ¬ waitsFor t t') :
    Dated waitsFor (Function.update tasks p (t :: tasks p)) := by
  obtain ⟨dated, now, dates⟩ := dated
  have known {q : P} {d : Nat × T} (member : d ∈ dated q) : d.2 ∈ tasks q := by
    rw [← dates.tasks q]
    exact List.mem_map_of_mem member
  have cases' {q : P} {c : Nat × T}
      (member : c ∈ Function.update dated p ((now, t) :: dated p) q) :
      c = (now, t) ∨ c ∈ dated q := by
    by_cases here : q = p
    · subst here
      rwa [Function.update_self, List.mem_cons] at member
    · rw [Function.update_of_ne here] at member
      exact .inr member
  refine ⟨Function.update dated p ((now, t) :: dated p), now + 1, ?_, ?_, ?_, ?_⟩
  case refine_1 =>
    intro q
    by_cases here : q = p
    · subst here
      simp [dates.tasks q]
    · simp [Function.update_of_ne here, dates.tasks q]
  case refine_2 =>
    intro q
    by_cases here : q = p
    · subst here
      rw [Function.update_self]
      exact .cons (dates.past q) (dates.nested q)
    · rw [Function.update_of_ne here]
      exact dates.nested q
  case refine_3 =>
    intro q c member
    rcases cases' member with rfl | old
    · exact Nat.lt_succ_self now
    · exact Nat.lt_succ_of_lt (dates.past q c old)
  case refine_4 =>
    intro q r c hc d hd waits
    rcases cases' hc with rfl | oldC
    · rcases cases' hd with rfl | oldD
      · exact absurd waits self
      · exact absurd waits (fresh r d.2 (known oldD))
    · rcases cases' hd with rfl | oldD
      · exact dates.past q c oldC
      · exact dates.before q r c oldC d oldD waits

theorem pop (dated : Dated waitsFor tasks) {p : P} {outer : List T} (top : tasks p = t :: outer) :
    Dated waitsFor (Function.update tasks p outer) := by
  obtain ⟨dated, now, dates⟩ := dated
  have tails {q : P} : (Function.update dated p (dated p).tail q).Sublist (dated q) := by
    by_cases here : q = p
    · subst here
      rw [Function.update_self]
      exact List.tail_sublist _
    · rw [Function.update_of_ne here]
  refine ⟨Function.update dated p (dated p).tail, now, ?_, ?_, ?_, ?_⟩
  case refine_1 =>
    intro q
    by_cases here : q = p
    · subst here
      rw [Function.update_self, Function.update_self, List.map_tail, dates.tasks q, top,
        List.tail_cons]
    · rw [Function.update_of_ne here, Function.update_of_ne here, dates.tasks q]
  case refine_2 => exact fun q => (dates.nested q).sublist tails
  case refine_3 => exact fun q c member => dates.past q c (tails.subset member)
  case refine_4 =>
    exact fun q r c hc d hd => dates.before q r c (tails.subset hc) d (tails.subset hd)

omit [DecidableEq P] in
/-- No circle: if the innermost call of every place waits for some call, there are no calls. -/
theorem none_blocked [Finite P] (dated : Dated waitsFor tasks)
    (blocked : ∀ p t outer, tasks p = t :: outer → ∃ q, ∃ t' ∈ tasks q, waitsFor t t') (p : P) :
    tasks p = [] := by
  obtain ⟨dated, now, dates⟩ := dated
  by_contra busy
  have := Fintype.ofFinite P
  let latest (q : P) : Nat := ((dated q).head?.map Prod.fst).getD 0
  -- the innermost call that began last
  obtain ⟨q, busy, last⟩ := Finset.exists_max_image
    (Finset.univ.filter fun q => dated q ≠ []) latest ⟨p, by simpa [← dates.tasks p] using busy⟩
  obtain ⟨c, outer, top⟩ := List.exists_cons_of_ne_nil (Finset.mem_filter.mp busy).2
  have place : tasks q = c.2 :: outer.map Prod.snd := by
    rw [← dates.tasks q, top, List.map_cons]
  obtain ⟨r, t', member, waits⟩ := blocked q c.2 _ place
  rw [← dates.tasks r] at member
  obtain ⟨d, there, rfl⟩ := List.mem_map.mp member
  have later := dates.before q r c (top ▸ List.mem_cons_self) d there waits
  -- the one it waits for began later, and the innermost one there later still
  obtain ⟨e, above, inner⟩ := List.exists_cons_of_ne_nil (List.ne_nil_of_mem there)
  have within : d.1 ≤ e.1 := by
    rw [inner] at there
    rcases List.mem_cons.mp there with rfl | behind
    · exact Nat.le_refl _
    · have nested := dates.nested r
      rw [inner] at nested
      exact Nat.le_of_lt ((List.pairwise_cons.mp nested).1 d behind)
  have bound := last r (Finset.mem_filter.mpr ⟨Finset.mem_univ r, List.ne_nil_of_mem there⟩)
  simp only [latest, top, inner, List.head?_cons, Option.map_some, Option.getD_some] at bound
  omega

end Dated
end Nesting
