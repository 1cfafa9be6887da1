import PBus.Session.Addressing
import Mathlib.Data.List.Induction

/-! Registered services and the objects invokes run on: `_services`, which `RegisterService`
overwrites, and `_localObjects`, which `GetLocalService` only inserts into. -/
namespace PBus

/-- What touches the two tables. A factory is the one instance its `Get` returns. -/
inductive Operation (Obj : Type) where
  /-- `RegisterService`. -/
  | register (classId : ClassId) (service : Obj)
  /-- `GetLocalService`, by itself or at the start of `GetService`. -/
  | get (serviceId : ServiceId)
  /-- The lookup of an incoming invoke. -/
  | invoke (id : ObjectId)

namespace Objects
variable {Obj : Type}

def empty : Objects Obj := ⟨fun _ => none, fun _ => none⟩

def registerService (s : Objects Obj) (classId : ClassId) (service : Obj) : Objects Obj :=
  { s with services := fun id => if id = classId then some service else s.services id }

/-- The tables once `OnIncomingInvoke` has looked its object up. -/
def looked (s : Objects Obj) (id : ObjectId) : Objects Obj :=
  if (s.localObjects id).isNone ∧ id.id = 0 then (s.getLocalService id.type).2 else s

def perform (s : Objects Obj) : Operation Obj → Objects Obj
  | .register classId service => s.registerService classId service
  | .get serviceId => (s.getLocalService serviceId).2
  | .invoke id => s.looked id

def after (ops : List (Operation Obj)) : Objects Obj := ops.foldl perform empty

/-- An invoke on object 0 of a class runs on what `GetLocalService` would return now, and on
nothing if that is nothing. -/
def SameObject (s : Objects Obj) : Prop :=
  ∀ c : ServiceId, (s.find ⟨c, 0⟩).toOption = (s.getLocalService c).1

/-- No class whose object 0 is in use is registered with another instance. -/
def KeepsInstances (ops : List (Operation Obj)) : Prop :=
  ∀ before c service, before ++ [.register c service] <+: ops →
    ∀ o, (after before).localObjects ⟨c, 0⟩ = some o → o = service

theorem after_concat (ops : List (Operation Obj)) (op : Operation Obj) :
    after (ops ++ [op]) = (after ops).perform op := by
  simp [after]

theorem getLocalService_fst (s : Objects Obj) (c : ServiceId) :
    (s.getLocalService c).1 = s.services c := by
  unfold getLocalService
  split <;> simp_all

/-- `GetLocalService` enters the service registered, where nothing is entered yet. -/
theorem getLocalService_snd (s : Objects Obj) (c : ServiceId) :
    (s.getLocalService c).2.services = s.services ∧ ∀ id,
      (s.getLocalService c).2.localObjects id =
        if id = ⟨c, 0⟩ then (s.localObjects id).or (s.services c) else s.localObjects id := by
  cases service : s.services c with
  | none =>
    simp only [getLocalService, service, Option.or_none, ite_self, implies_true, and_self]
  | some o =>
    simp only [getLocalService, service, true_and]
    intro id
    split
    · cases s.localObjects id <;> rfl
    · rfl

theorem find_eq (s : Objects Obj) (c : ServiceId) :
    (s.find ⟨c, 0⟩).toOption = (s.localObjects ⟨c, 0⟩).or (s.services c) := by
  cases entry : s.localObjects ⟨c, 0⟩ with
  | some o => simp [find, entry, Except.toOption]
  | none =>
    have entered := (s.getLocalService_snd c).2 ⟨c, 0⟩
    rw [if_pos rfl, entry, Option.none_or] at entered
    simp only [find, entry, Option.isNone_none, and_self, if_true, entered, Option.none_or]
    cases s.services c <;> rfl

theorem perform_cases (s : Objects Obj) (op : Operation Obj) :
    (∃ c service, op = .register c service ∧ s.perform op = s.registerService c service) ∨
    (s.perform op).services = s.services ∧ ∀ c : ServiceId,
      (s.perform op).localObjects ⟨c, 0⟩ = s.localObjects ⟨c, 0⟩ ∨
      (s.perform op).localObjects ⟨c, 0⟩ = (s.localObjects ⟨c, 0⟩).or (s.services c) := by
  have got (serviceId c : ServiceId) :
      (s.getLocalService serviceId).2.localObjects ⟨c, 0⟩ = s.localObjects ⟨c, 0⟩ ∨
      (s.getLocalService serviceId).2.localObjects ⟨c, 0⟩ =
        (s.localObjects ⟨c, 0⟩).or (s.services c) := by
    rw [(s.getLocalService_snd serviceId).2]
    by_cases same : (⟨c, 0⟩ : ObjectId) = ⟨serviceId, 0⟩
    · obtain ⟨rfl, -⟩ := ObjectId.mk.inj same
      exact .inr (if_pos rfl)
    · exact .inl (if_neg same)
  cases op with
  | register c service => exact .inl ⟨c, service, rfl, rfl⟩
  | get serviceId => exact .inr ⟨(s.getLocalService_snd serviceId).1, got serviceId⟩
  | invoke id =>
    right
    simp only [perform, looked]
    split
    · exact ⟨(s.getLocalService_snd id.type).1, got id.type⟩
    · exact ⟨rfl, fun c => .inl rfl⟩

/-- Both callers reach the same objects exactly if what is in use is what is registered. -/
theorem sameObject_iff (s : Objects Obj) : SameObject s ↔
    ∀ (c : ServiceId) (o : Obj), s.localObjects ⟨c, 0⟩ = some o → s.services c = some o := by
  refine forall_congr' fun c => ?_
  rw [find_eq, getLocalService_fst]
  cases s.localObjects ⟨c, 0⟩ with
  | none => simp
  | some o => simp [eq_comm]

theorem used_registered (ops : List (Operation Obj)) (c : ServiceId)
    (used : ((after ops).localObjects ⟨c, 0⟩).isSome) : ((after ops).services c).isSome := by
  induction ops using List.reverseRecOn with
  | nil => contradiction
  | append_singleton ops op ih =>
    rw [after_concat] at used ⊢
    rcases (after ops).perform_cases op with ⟨c', service, rfl, registered⟩ | ⟨services, entries⟩
    · rw [registered] at used ⊢
      simp only [registerService]
      split
      · rfl
      · exact ih used
    · rw [services]
      rcases entries c with same | entered
      · exact ih (same ▸ used)
      · rw [entered, Option.isSome_or, Bool.or_eq_true] at used
        exact used.elim ih id

theorem SameObject.perform {s : Objects Obj} (same : SameObject s) (op : Operation Obj)
    (keeps : ∀ c service, op = .register c service →
      ∀ o, s.localObjects ⟨c, 0⟩ = some o → o = service) : SameObject (s.perform op) := by
  rw [sameObject_iff] at same ⊢
  intro c o entry
  rcases s.perform_cases op with ⟨c', service, rfl, registered⟩ | ⟨services, entries⟩
  · rw [registered] at entry ⊢
    simp only [registerService] at entry ⊢
    split
    · rename_i here
      subst here
      rw [keeps c service rfl o entry]
    · exact same c o entry
  · rw [services]
    rcases entries c with unchanged | entered
    · exact same c o (unchanged ▸ entry)
    · rw [entered, Option.or_eq_some_iff] at entry
      rcases entry with used | ⟨-, registered⟩
      · exact same c o used
      · exact registered

end Objects
open Objects

/-- An invoke finds an object exactly if a factory is registered; and in every state of a
sequence of operations it runs on the object `GetLocalService` would return, exactly if no
class in use was registered with another instance. -/
theorem same_object_iff {Obj : Type} (ops : List (Operation Obj)) :
    (∀ c : ServiceId, (∃ o, (after ops).find ⟨c, 0⟩ = .ok o) ↔ ((after ops).services c).isSome) ∧
    ((∀ before, before <+: ops → SameObject (after before)) ↔ KeepsInstances ops) := by
  constructor
  · intro c
    have found : (∃ o, (after ops).find ⟨c, 0⟩ = .ok o) ↔
        ((after ops).find ⟨c, 0⟩).toOption.isSome := by
      cases (after ops).find ⟨c, 0⟩ <;> simp [Except.toOption]
    rw [found, find_eq, Option.isSome_or, Bool.or_eq_true]
    exact ⟨fun h => h.elim (used_registered ops c) id, .inr⟩
  constructor
  · intro same before c service here o used
    have agreed := (sameObject_iff _).mp (same _ here) c o
    rw [after_concat] at agreed
    have registered := agreed used
    simp only [Objects.perform, registerService, if_true, Option.some.injEq] at registered
    exact registered.symm
  · intro keeps before here
    induction before using List.reverseRecOn with
    | nil => exact fun c => rfl
    | append_singleton before op ih =>
      rw [after_concat]
      refine (ih ((List.prefix_append _ _).trans here)).perform op ?_
      rintro c service rfl
      exact keeps before c service here

/-- A class is registered again after its first use: invokes run on the first instance,
`GetLocalService` returns the second. -/
theorem registered_again :
    let ops : List (Operation Nat) :=
      [.register ⟨['a'], 1⟩ 1, .get ⟨['a'], 1⟩, .register ⟨['a'], 1⟩ 2]
    (after ops).find ⟨⟨['a'], 1⟩, 0⟩ = .ok 1 ∧
      ((after ops).getLocalService ⟨['a'], 1⟩).1 = some 2 ∧ ¬ SameObject (after ops) := by
  refine ⟨by decide +kernel, by decide +kernel, fun same => ?_⟩
  exact absurd (same ⟨['a'], 1⟩) (by decide +kernel)

end PBus
