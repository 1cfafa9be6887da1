import PBus.Foundation.Transition
import Mathlib.Data.List.Induction

/-! One machine seen as another. A label of the first stands for a label of the second, or for
none, depending on what happened before it; the steps are matched one by one, and then so are
the runs. -/
namespace Transition
variable {S T L M : Type}

/-- What the labels stand for, behind the history `past`. -/
def translateFrom (f : List L → L → Option M) (past : List L) : List L → List M
  | [] => []
  | l :: rest => (f past l).toList ++ translateFrom f (past ++ [l]) rest

/-- What a history stands for. -/
def translate (f : List L → L → Option M) (hist : List L) : List M := translateFrom f [] hist

theorem translateFrom_append (f : List L → L → Option M) (past hist rest : List L) :
    translateFrom f past (hist ++ rest) =
      translateFrom f past hist ++ translateFrom f (past ++ hist) rest := by
  induction hist generalizing past with
  | nil => simp [translateFrom]
  | cons l hist ih => simp [translateFrom, ih]

@[simp] theorem translate_nil (f : List L → L → Option M) : translate f [] = [] := rfl

theorem translate_concat (f : List L → L → Option M) (past : List L) (l : L) :
    translate f (past ++ [l]) = translate f past ++ (f past l).toList := by
  simp [translate, translateFrom_append, translateFrom]

theorem translate_prefix (f : List L → L → Option M) {before hist : List L}
    (here : before <+: hist) : translate f before <+: translate f hist := by
  obtain ⟨rest, rfl⟩ := here
  rw [translate, translate, translateFrom_append]
  exact List.prefix_append _ _

theorem translate_filterMap (f : L → Option M) (hist : List L) :
    translate (fun _ => f) hist = hist.filterMap f := by
  have general : ∀ past, translateFrom (fun _ => f) past hist = hist.filterMap f := by
    induction hist with
    | nil => exact fun _ => rfl
    | cons l rest ih =>
      intro past
      rw [translateFrom, ih, List.filterMap_cons]
      cases f l <;> rfl
  exact general []

theorem translate_position {f : List L → L → Option M} {hist : List L} {before : List M} {m : M}
    (here : before ++ [m] <+: translate f hist) :
    ∃ past l, past ++ [l] <+: hist ∧ translate f past = before ∧ f past l = some m := by
  induction hist using List.reverseRecOn with
  | nil => simp at here
  | append_singleton hist l ih =>
    rw [translate_concat] at here
    have earlier (inside : before ++ [m] <+: translate f hist) :
        ∃ past l', past ++ [l'] <+: hist ++ [l] ∧ translate f past = before ∧
          f past l' = some m := by
      obtain ⟨past, l', there, rest⟩ := ih inside
      exact ⟨past, l', there.trans (List.prefix_append _ _), rest⟩
    cases gives : f hist l with
    | none => exact earlier (by simpa [gives] using here)
    | some m' =>
      rw [gives, Option.toList_some] at here
      rcases List.prefix_concat_iff.mp here with same | inside
      · obtain ⟨rfl, label⟩ := List.append_inj' same rfl
        obtain rfl := List.singleton_inj.mp label
        exact ⟨hist, l, List.prefix_refl _, rfl, gives⟩
      · exact earlier inside

theorem translate_at {f : List L → L → Option M} {past hist : List L} {l : L} {m : M}
    (here : past ++ [l] <+: hist) (gives : f past l = some m) :
    translate f past ++ [m] <+: translate f hist := by
  have moved := translate_prefix f here
  rwa [translate_concat, gives, Option.toList_some] at moved

theorem translate_mem {f : List L → L → Option M} {hist : List L} {m : M}
    (member : m ∈ translate f hist) : ∃ past l, past ++ [l] <+: hist ∧ f past l = some m := by
  obtain ⟨before, rest, split⟩ := List.append_of_mem member
  have here : before ++ [m] <+: translate f hist := by simp [split]
  obtain ⟨past, l, there, -, gives⟩ := translate_position here
  exact ⟨past, l, there, gives⟩

theorem mem_translate {f : List L → L → Option M} {past hist : List L} {l : L} {m : M}
    (here : past ++ [l] <+: hist) (gives : f past l = some m) : m ∈ translate f hist :=
  (translate_at here gives).subset (List.mem_append_right _ List.mem_cons_self)

/-- The simulation rule: where every step of a run is matched by a step of the other machine
under the label it stands for, or leaves the other machine where it is, the run is matched. -/
theorem Guarded.simulate {step : S → L → S → Prop} {C : List L → S → L → Prop}
    {step' : T → M → T → Prop} {C' : List M → T → M → Prop} {r : S → T}
    {f : List L → L → Option M} {s t : S} {hist : List L}
    (silent : ∀ {past t l u}, Guarded step C s past t → step t l u → C past t l →
      f past l = none → r u = r t)
    (moves : ∀ {past t l u m}, Guarded step C s past t → step t l u → C past t l →
      f past l = some m → step' (r t) m (r u) ∧ C' (translate f past) (r t) m)
    (run : Guarded step C s hist t) : Guarded step' C' (r s) (translate f hist) (r t) := by
  induction run with
  | start => exact .start
  | @next past t l u before last met ih =>
    rw [translate_concat]
    cases gives : f past l with
    | none =>
      rw [Option.toList_none, List.append_nil, silent before last met gives]
      exact ih
    | some m =>
      obtain ⟨matched, allowed⟩ := moves before last met gives
      exact .next ih matched allowed

end Transition
