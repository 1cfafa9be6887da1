import PBus.Session.Messages

/-! Which object an invoke reaches: the local objects and services of a session, and the way
from the bytes of a request to one of them. -/
namespace PBus
open Session

/-- `ObjectId::ToString`. -/
def ObjectId.toString (o : ObjectId) : Str := o.type.toString ++ '/' :: decimal o.id

/-- `_services` with the instance each factory yields, and `_localObjects`. -/
structure Objects (Obj : Type) where
  services : ServiceId → Option Obj
  localObjects : ObjectId → Option Obj

namespace Objects
variable {Obj : Type}

/-- `Session::GetLocalService`. The instance is entered under object number 0, unless there
is an entry already. -/
def getLocalService (s : Objects Obj) (serviceId : ServiceId) : Option Obj × Objects Obj :=
  match s.services serviceId with
  | none => (none, s)
  | some service =>
    (some service, { s with localObjects := fun id =>
      if id = ⟨serviceId, 0⟩ then some ((s.localObjects id).getD service) else s.localObjects id })

/-- How `OnIncomingInvoke` looks its object up. -/
def find (s : Objects Obj) (id : ObjectId) : Except Str Obj :=
  let s := if (s.localObjects id).isNone ∧ id.id = 0 then (s.getLocalService id.type).2 else s
  match s.localObjects id with
  | some object => .ok object
  | none => .error ("object with id ".toList ++ id.toString ++ " not found".toList)

/-- The object was entered under this identifier, or is a service registered under its class. -/
def Registered (s : Objects Obj) (id : ObjectId) (object : Obj) : Prop :=
  s.localObjects id = some object ∨ id.id = 0 ∧ s.services id.type = some object

theorem find_registered {s : Objects Obj} {id : ObjectId} {object : Obj}
    (found : s.find id = .ok object) : s.Registered id object := by
  simp only [find] at found
  by_cases absent : (s.localObjects id).isNone ∧ id.id = 0
  · simp only [if_pos absent] at found
    obtain ⟨none, zero⟩ := absent
    rw [Option.isNone_iff_eq_none] at none
    cases service : s.services id.type with
    | none => simp [getLocalService, service, none] at found
    | some instance' =>
      have self : id = ⟨id.type, 0⟩ := by rw [← zero]
      simp only [getLocalService, service, if_pos self, none, Option.getD_none,
        Except.ok.injEq] at found
      exact .inr ⟨zero, found ▸ service⟩
  · simp only [if_neg absent] at found
    cases entry : s.localObjects id with
    | none => simp [entry] at found
    | some object' =>
      simp only [entry, Except.ok.injEq] at found
      exact .inl (found ▸ entry)

theorem find_service {s : Objects Obj} {type : ServiceId} {object : Obj}
    (registered : s.services type = some object) (unused : s.localObjects ⟨type, 0⟩ = none) :
    s.find ⟨type, 0⟩ = .ok object := by
  simp [find, getLocalService, registered, unused]

end Objects

namespace Session
variable (tk : Toolkit)

/-- `OnIncomingInvoke` up to the call of the method: the object, and the call it gets. -/
def incomingInvoke {Obj : Type} (s : Objects Obj) (data : List UInt8) :
    Except Str (Obj × Invocation) := do
  let invocation ← readInvocation tk data
  let object ← s.find invocation.id
  return (object, invocation)

/-- The peer sees the identifier, the method and the arguments `Invoke` was given, and
dispatches to nothing but what is registered under that identifier. -/
def Addressed (o : ObjectId) (method : Str) (args : List UInt8) : Prop :=
  ∃ data, request tk (invokePayload tk o method args) = .ok (.invoke data) ∧
    readInvocation tk data = .ok ⟨o, method, args⟩ ∧
    ∀ {Obj : Type} (s : Objects Obj) (object : Obj) (invocation : Invocation),
      incomingInvoke tk s data = .ok (object, invocation) → s.Registered o object

variable {tk}

/-- A dash-free class name arrives with version 1. -/
theorem readInvocation_dashFree (lawful : tk.Lawful) {o : ObjectId}
    (dashFree : ClassId.DashFree o.type.name) (method : Str) (args : List UInt8) :
    readInvocation tk (o.write tk ++ (tk.string.write method ++ args)) =
      .ok ⟨⟨⟨o.type.name, 1⟩, o.id⟩, method, args⟩ := by
  rw [readInvocation_write lawful, ClassId.new_dashFree dashFree]
  rfl

theorem incomingInvoke_dashFree (lawful : tk.Lawful) {o : ObjectId}
    (dashFree : ClassId.DashFree o.type.name) (method : Str) (args : List UInt8) {Obj : Type}
    (s : Objects Obj) :
    incomingInvoke tk s (o.write tk ++ (tk.string.write method ++ args)) =
      (s.find ⟨⟨o.type.name, 1⟩, o.id⟩).map fun object =>
        (object, ⟨⟨⟨o.type.name, 1⟩, o.id⟩, method, args⟩) := by
  simp only [incomingInvoke, readInvocation_dashFree lawful dashFree, bind, Except.bind]
  cases s.find ⟨⟨o.type.name, 1⟩, o.id⟩ <;> rfl

end Session

/-- An invoke on an object of a class with a dash-free name arrives as it was sent exactly
when the version of the class is 1. -/
theorem addressed_iff {tk : Toolkit} (lawful : tk.Lawful) (o : ObjectId)
    (dashFree : ClassId.DashFree o.type.name) (method : Str) (args : List UInt8) :
    Addressed tk o method args ↔ o.type.version = 1 := by
  constructor
  · rintro ⟨data, sent, arrived, -⟩
    rw [request_invoke lawful, Except.ok.injEq, Request.invoke.injEq] at sent
    rw [← sent, readInvocation_dashFree lawful dashFree, Except.ok.injEq,
      Invocation.mk.injEq] at arrived
    exact (congrArg (fun id => id.type.version) arrived.1).symm
  · intro first
    have self : (⟨⟨o.type.name, 1⟩, o.id⟩ : ObjectId) = o := by rw [← first]
    refine ⟨_, request_invoke lawful o method args,
      by rw [readInvocation_dashFree lawful dashFree, self], ?_⟩
    intro Obj s object invocation done
    rw [incomingInvoke_dashFree lawful dashFree, self] at done
    cases found : s.find o with
    | error e =>
      rw [found] at done
      contradiction
    | ok object' =>
      rw [found] at done
      obtain ⟨rfl, -⟩ := Prod.mk.inj (Except.ok.inj done)
      exact Objects.find_registered found

theorem addressed_plain :
    Addressed .plain ⟨⟨"system.RandomGenerator".toList, 1⟩, 0⟩ "getInteger".toList [7, 0, 0, 0] :=
  (addressed_iff Toolkit.plain_lawful _ (by decide +kernel) _ _).mpr rfl

def twoVersions : Objects Nat where
  services id := if id = ⟨['a'], 1⟩ then some 1 else if id = ⟨['a'], 2⟩ then some 2 else none
  localObjects _ := none

/-- An invoke on version 2 arrives as one on version 1, and is dispatched to the service
registered under version 1. -/
theorem version_two_misdirected :
    ClassId.new "a-2".toList = .ok ⟨['a'], 2⟩ ∧
    (request .plain (invokePayload .plain ⟨⟨['a'], 2⟩, 0⟩ ['m'] []) >>= fun
      | .invoke data => incomingInvoke .plain twoVersions data
      | _ => .error []) = .ok (1, ⟨⟨⟨['a'], 1⟩, 0⟩, ['m'], []⟩) ∧
    ¬ Addressed .plain ⟨⟨['a'], 2⟩, 0⟩ ['m'] [] := by
  refine ⟨by decide +kernel, by decide +kernel, ?_⟩
  rintro ⟨data, sent, arrived, -⟩
  rw [request_invoke Toolkit.plain_lawful, Except.ok.injEq, Request.invoke.injEq] at sent
  subst sent
  revert arrived
  decide +kernel

end PBus
