import Mathlib.Logic.Relation

/-! Labelled, possibly nondeterministic executions together with their histories.
An invariant may relate a state to everything that was observed on the way to it.
Nothing here is about a particular machine. -/
namespace Transition
variable {S L : Type}

inductive Reaches (step : S → L → S → Prop) : S → List L → S → Prop where
  | refl (s) : Reaches step s [] s
  | next : step s l t → Reaches step t rest u → Reaches step s (l :: rest) u

/-- The runs whose every step meets `C`, a condition on the history so far, the state the
step is taken in, and its label. -/
inductive Guarded (step : S → L → S → Prop) (C : List L → S → L → Prop) (s : S) :
    List L → S → Prop where
  | start : Guarded step C s [] s
  | next : Guarded step C s past t → step t l u → C past t l → Guarded step C s (past ++ [l]) u

namespace Reaches
variable {step : S → L → S → Prop}

theorem single (head : step s l t) : Reaches step s [l] t := .next head (.refl _)

theorem trans (first : Reaches step s ls t) (second : Reaches step t ms u) :
    Reaches step s (ls ++ ms) u := by
  induction first with
  | refl => exact second
  | next head tail ih => exact .next head (ih second)

theorem snoc (first : Reaches step s ls t) (last : step t l u) : Reaches step s (ls ++ [l]) u :=
  first.trans (single last)

theorem mono {step' : S → L → S → Prop} (weaker : ∀ {s l t}, step s l t → step' s l t)
    (run : Reaches step s ls t) : Reaches step' s ls t := by
  induction run with
  | refl => exact .refl _
  | next head tail ih => exact .next (weaker head) ih

/-- The run rule: what holds of the empty history and is kept by one step from any
history reached so far holds of every run. -/
theorem history {P : List L → S → Prop}
    (preserves : ∀ {past s l t}, P past s → step s l t → P (past ++ [l]) t)
    (run : Reaches step s ls t) (initial : P [] s) : P ls t := by
  have general : ∀ past, P past s → P (past ++ ls) t := by
    clear initial
    induction run with
    | refl => intro past holds; simpa using holds
    | next head tail ih =>
      intro past holds
      simpa using ih _ (preserves holds head)
  simpa using general [] initial

theorem invariant {P : S → Prop} (preserves : ∀ {s l t}, P s → step s l t → P t)
    (run : Reaches step s ls t) (initial : P s) : P t :=
  run.history (P := fun _ t => P t) preserves initial

theorem split (run : Reaches step s (ls ++ ms) u) :
    ∃ t, Reaches step s ls t ∧ Reaches step t ms u := by
  induction ls generalizing s with
  | nil => exact ⟨s, .refl _, run⟩
  | cons l ls ih =>
    cases run with
    | next head tail =>
      obtain ⟨t, first, second⟩ := ih tail
      exact ⟨t, .next head first, second⟩

end Reaches

namespace Guarded
variable {step : S → L → S → Prop} {C : List L → S → L → Prop}

theorem reaches (run : Guarded step C s hist t) : Reaches step s hist t := by
  induction run with
  | start => exact .refl _
  | next past last met ih => exact ih.snoc last

/-- The run rule for steps that meet a condition. -/
theorem history {P : List L → S → Prop}
    (preserves : ∀ {past t l u}, P past t → step t l u → C past t l → P (past ++ [l]) u)
    (run : Guarded step C s hist t) (initial : P [] s) : P hist t := by
  induction run with
  | start => exact initial
  | next past last met ih => exact preserves ih last met

theorem mono {C' : List L → S → L → Prop} (weaker : ∀ {past t l}, C past t l → C' past t l)
    (run : Guarded step C s hist t) : Guarded step C' s hist t := by
  induction run with
  | start => exact .start
  | next past last met ih => exact .next ih last (weaker met)

theorem labels {D : L → Prop} (run : Guarded step (fun _ _ l => D l) s hist t) :
    ∀ l ∈ hist, D l := by
  refine run.history (P := fun hist _ => ∀ l ∈ hist, D l) ?_ (by simp)
  intro past t l u before _ met m hm
  rcases List.mem_append.mp hm with hm | hm
  · exact before m hm
  · exact List.mem_singleton.mp hm ▸ met

theorem of_labels {D : L → Prop} (run : Reaches step s hist t) :
    (∀ l ∈ hist, D l) → Guarded step (fun _ _ l => D l) s hist t := by
  refine run.history (P := fun hist t => (∀ l ∈ hist, D l) → Guarded step _ s hist t) ?_ ?_
  · intro past t l u ih last met
    have before := ih fun m hm => met m (List.mem_append_left _ hm)
    exact .next before last (met l (List.mem_append_right _ List.mem_cons_self))
  · exact fun _ => .start

/-- Where a label stands in the history, the run took a step with it. -/
theorem at_label {before : List L} {l : L} (run : Guarded step C s hist t)
    (here : before ++ [l] <+: hist) :
    ∃ u v, Guarded step C s before u ∧ step u l v ∧ C before u l := by
  induction run with
  | start => simp at here
  | next past last met ih =>
    rcases List.prefix_concat_iff.mp here with same | earlier
    · obtain ⟨rfl, label⟩ := List.append_inj' same rfl
      obtain rfl := List.singleton_inj.mp label
      exact ⟨_, _, past, last, met⟩
    · exact ih earlier

end Guarded

/-! Machines whose steps are computed from events. -/

theorem possible_iff {p : Prop} [Decidable p] {l m : L} {s t : S} :
    (if p then some (l, s) else none) = some (m, t) ↔ p ∧ l = m ∧ s = t := by
  rw [Option.ite_none_right_eq_some, Option.some.injEq, Prod.mk.injEq]

section Play
variable {E : Type} (perform : S → E → Option (L × S)) (C : List L → S → L → Prop)
  [∀ past s l, Decidable (C past s l)]

/-- Let events happen one after the other, skipping what cannot happen or does not meet `C`. -/
def play (past : List L) (s : S) : List E → List L × S
  | [] => (past, s)
  | event :: events =>
    match perform s event with
    | some (l, t) => if C past s l then play (past ++ [l]) t events else play past s events
    | none => play past s events

theorem play_guarded {step : S → L → S → Prop}
    (sound : ∀ {s event l t}, perform s event = some (l, t) → step s l t)
    (run : Guarded step C start past s) (events : List E) :
    Guarded step C start (play perform C past s events).1 (play perform C past s events).2 := by
  induction events generalizing past s with
  | nil => exact run
  | cons event events ih =>
    simp only [play]
    split
    · rename_i l t performed
      split
      · rename_i met
        exact ih (.next run (sound performed) met)
      · exact ih run
    · exact ih run

end Play
end Transition
