import PBus.Idl.Interfaces
import PBus.Session.Rpc
import PBus.Session.Services

/-! What a process makes of the requests for its services: `OnIncomingData` with the generated
stubs, and the same seen as the calls of one object. -/
namespace PBus
open Session Idl

/-- An instance that is registered as a service: the interfaces it implements, the most derived
one first, and what its methods do. -/
structure Exported {tk : Toolkit} (types : IdlTypes tk) (σ : Type) where
  chain : List (Interface types)
  object : Object types σ

/-- A method of a proxy with this identifier, and the arguments it is called with. -/
abbrev ProxyCall {tk : Toolkit} (types : IdlTypes tk) := ObjectId × Call types

namespace Serving
variable {tk : Toolkit} {types : IdlTypes tk} {σ : Type}

/-- A request that fails before a method is called. -/
def failed (text : Str) (s : σ) : Invoked types σ := ⟨[], [], .error text, s⟩

/-- `OnIncomingInvoke` up to its `Send`. -/
def onIncomingInvoke (objects : Objects (Exported types σ)) (s : σ) (data : List UInt8) :
    Invoked types σ × Objects (Exported types σ) :=
  match readInvocation tk data with
  | .error text => (failed text s, objects)
  | .ok i =>
    match objects.find i.id with
    | .error text => (failed text s, objects.looked i.id)
    | .ok e => (invoke e.object e.chain i.methodName i.args s, objects.looked i.id)

/-- `OnIncomingData` for what is not a response. -/
def onIncomingData (objects : Objects (Exported types σ)) (s : σ) (payload : List UInt8) :
    Invoked types σ × Objects (Exported types σ) :=
  match request tk payload with
  | .ok (.invoke data) => onIncomingInvoke objects s data
  | .ok (.exception _) | .ok (.result _) => (⟨[], [], .ok (), s⟩, objects)
  | .error text => (failed text s, objects)

/-- What was serialized is a value of the type the method returns. -/
def Results (r : Invoked types σ) : Outcome tk → Prop
  | .error text => r.outcome = .error text
  | .ok ⟨ty, value⟩ => r.outcome = .ok () ∧ (∃ c, r.calls = [c] ∧ c.method.rtype = ty) ∧
      r.written = (tk.value ty).write value

instance (calls : List (Call types)) (ty : tk.Ty) :
    Decidable (∃ c, calls = [c] ∧ c.method.rtype = ty) :=
  match calls with
  | [c] => decidable_of_iff (c.method.rtype = ty)
      ⟨fun type => ⟨c, rfl, type⟩, by rintro ⟨_, ⟨⟩, type⟩; exact type⟩
  | [] => isFalse (by simp)
  | _ :: _ :: _ => isFalse (by simp)

instance (r : Invoked types σ) (outcome : Outcome tk) : Decidable (Results r outcome) :=
  match outcome with
  | .error text => inferInstanceAs (Decidable (r.outcome = .error text))
  | .ok ⟨ty, value⟩ => inferInstanceAs (Decidable (r.outcome = .ok () ∧
      (∃ c, r.calls = [c] ∧ c.method.rtype = ty) ∧ r.written = (tk.value ty).write value))

/-- What `OnIncomingInvoke` throws. -/
def notFound (id : ObjectId) : Str := "object with id ".toList ++ id.toString ++ " not found".toList

/-- The services of a process, used by one caller at a time. -/
def serve (services : ServiceId → Option (Exported types σ)) (s : σ) (q : ProxyCall types) :
    Outcome tk × σ :=
  match if q.1.id = 0 then services q.1.type else none with
  | none => (.error (notFound q.1), s)
  | some e =>
    ((e.object q.2 s).1.map fun value => ⟨q.2.method.rtype, value⟩, (e.object q.2 s).2)

/-- The identifier of a proxy is made from a generated `ClassId`, and the proxy belongs to the
interfaces the service implements. -/
structure Suits (services : ServiceId → Option (Exported types σ)) (q : ProxyCall types) :
    Prop where
  version : q.1.type.version = 1
  dashFree : ClassId.DashFree q.1.type.name
  nearest : ∀ e, services q.1.type = some e → Nearest e.chain q.2.method

/-- These services are registered, and nothing but their instances is entered. -/
structure Holds (services : ServiceId → Option (Exported types σ))
    (objects : Objects (Exported types σ)) : Prop where
  registered : objects.services = services
  entered : ∀ id e, objects.localObjects id = some e → id.id = 0 ∧ services id.type = some e

theorem Results.unique (lawful : tk.Lawful) {r : Invoked types σ} {first second : Outcome tk}
    (one : Results r first) (other : Results r second) : first = second := by
  cases first with
  | error text =>
    have threw : r.outcome = .error text := one
    cases second with
    | error text' =>
      have threw' : r.outcome = .error text' := other
      rw [threw, Except.error.injEq] at threw'
      rw [threw']
    | ok value =>
      rw [other.1] at threw
      contradiction
  | ok value =>
    obtain ⟨ty, value⟩ := value
    obtain ⟨done, ⟨c, calls, type⟩, written⟩ := one
    cases second with
    | error text' =>
      have threw' : r.outcome = .error text' := other
      rw [done] at threw'
      contradiction
    | ok value' =>
      obtain ⟨ty', value'⟩ := value'
      obtain ⟨-, ⟨c', calls', type'⟩, written'⟩ := other
      obtain rfl := List.singleton_inj.mp (calls.symm.trans calls')
      obtain rfl := type.symm.trans type'
      have same := lawful.value ty value []
      rw [← written, written', lawful.value ty value' [], Except.ok.injEq] at same
      rw [(Prod.mk.inj same).1]

theorem call_results (object : Object types σ) (c : Call types) (s : σ) :
    Results (call object c s) ((object c s).1.map fun value => ⟨c.method.rtype, value⟩) ∧
      (call object c s).state = (object c s).2 := by
  obtain ⟨⟨name, args, rtype⟩, arguments⟩ := c
  unfold call
  split
  · rename_i text s' threw
    rw [threw]
    exact ⟨rfl, rfl⟩
  · rename_i value s' done
    rw [done]
    refine ⟨⟨rfl, ⟨_, rfl, rfl⟩, ?_⟩, rfl⟩
    by_cases isVoid : rtype = types.void
    · subst isVoid
      simp only [if_true, types.only value]
    · simp only [if_neg isVoid]

/-- The stub of the interfaces a proxy belongs to makes the call the proxy was asked for. -/
theorem invoke_call (lawful : tk.Lawful) (object : Object types σ)
    {chain : List (Interface types)} {c : Call types} (nearest : Nearest chain c.method) (s : σ) :
    invoke object chain c.method.name (writeArguments c.method.args c.arguments) s =
      call object c s := by
  have next : (writeArguments c.method.args c.arguments).drop 0 =
      writeArguments c.method.args c.arguments ++ [] := by simp
  obtain ⟨behind, read⟩ := readArguments_write lawful c.arguments next
  simp only [invoke_nearest object nearest, perform, read]

/-- Whatever a stub is called with, it fails without a call or ends as one call does. -/
theorem invoke_cases (object : Object types σ) (chain : List (Interface types)) (method : Str)
    (argsData : List UInt8) (s : σ) :
    (∃ text, invoke object chain method argsData s = failed text s) ∨
      ∃ c, invoke object chain method argsData s = call object c s := by
  by_cases declared : Declares chain method
  · obtain ⟨m, nearest, rfl⟩ := declares_nearest declared
    rw [invoke_nearest object nearest, perform]
    split
    · exact .inl ⟨_, rfl⟩
    · exact .inr ⟨_, rfl⟩
  · rw [invoke_undeclared object declared]
    exact .inl ⟨_, rfl⟩

theorem failed_results (text : Str) (s : σ) :
    Results (failed text s : Invoked types σ) (.error text) := rfl

theorem onIncomingInvoke_results (objects : Objects (Exported types σ)) (s : σ)
    (data : List UInt8) : ∃ outcome, Results (onIncomingInvoke objects s data).1 outcome := by
  unfold onIncomingInvoke
  split
  · exact ⟨_, failed_results _ s⟩
  · rename_i i decoded
    split
    · exact ⟨_, failed_results _ s⟩
    · rename_i e found
      rcases invoke_cases e.object e.chain i.methodName i.args s with ⟨text, threw⟩ | ⟨c, called⟩
      · simp only [threw]
        exact ⟨_, failed_results text s⟩
      · simp only [called]
        exact ⟨_, (call_results e.object c s).1⟩

theorem results_exist (objects : Objects (Exported types σ)) (s : σ) {payload : List UInt8}
    {result outcome : Outcome tk} (asks : handle tk payload result = some outcome) :
    ∃ outcome, Results (onIncomingData objects s payload).1 outcome ∧
      handle tk payload outcome = some outcome := by
  unfold handle at asks ⊢
  cases read : request tk payload with
  | error text => exact ⟨.error text, by simp only [onIncomingData, read]; rfl, rfl⟩
  | ok kind =>
    cases kind with
    | exception data | result data => simp [read] at asks
    | invoke data =>
      simp only [onIncomingData, read]
      cases decoded : readInvocation tk data with
      | error text =>
        exact ⟨.error text, by simp only [onIncomingInvoke, decoded]; rfl, rfl⟩
      | ok i =>
        obtain ⟨outcome, results⟩ := onIncomingInvoke_results objects s data
        exact ⟨outcome, results, rfl⟩

theorem find_or {Obj : Type} (s : Objects Obj) (id : ObjectId) :
    s.find id = ((s.localObjects id).or (if id.id = 0 then s.services id.type else none)).elim
      (.error (notFound id)) .ok := by
  have text : "object with id ".toList ++ id.toString ++ " not found".toList = notFound id := rfl
  unfold Objects.find
  rw [text]
  cases entry : s.localObjects id with
  | some o => simp [entry]
  | none =>
    by_cases zero : id.id = 0
    · have self : (⟨id.type, 0⟩ : ObjectId) = id := by rw [← zero]
      have entered := (s.getLocalService_snd id.type).2 id
      rw [self, if_pos rfl, entry, Option.none_or] at entered
      simp only [zero, Option.isNone_none, and_self, if_true, entered, Option.none_or]
      cases s.services id.type <;> rfl
    · simp [entry, zero]

theorem Holds.find {services : ServiceId → Option (Exported types σ)}
    {objects : Objects (Exported types σ)} (holds : Holds services objects) (id : ObjectId) :
    objects.find id =
      (if id.id = 0 then services id.type else none).elim (.error (notFound id)) .ok := by
  have same : (objects.localObjects id).or (if id.id = 0 then objects.services id.type else none) =
      if id.id = 0 then services id.type else none := by
    rw [holds.registered]
    cases entry : objects.localObjects id with
    | none => rfl
    | some e =>
      obtain ⟨zero, service⟩ := holds.entered id e entry
      rw [Option.some_or, if_pos zero, service]
  rw [find_or, same]

theorem Holds.looked {services : ServiceId → Option (Exported types σ)}
    {objects : Objects (Exported types σ)} (holds : Holds services objects) (id : ObjectId) :
    Holds services (objects.looked id) := by
  unfold Objects.looked
  split
  · obtain ⟨same, entries⟩ := objects.getLocalService_snd id.type
    constructor
    case registered => rw [same, holds.registered]
    case entered =>
      intro id' e entry
      rw [entries] at entry
      split at entry
      · rename_i here
        subst here
        rcases Option.or_eq_some_iff.mp entry with old | ⟨-, service⟩
        · exact holds.entered _ e old
        · exact ⟨rfl, holds.registered ▸ service⟩
      · exact holds.entered id' e entry
  · exact holds

theorem Holds.handled {services : ServiceId → Option (Exported types σ)}
    {objects : Objects (Exported types σ)} (holds : Holds services objects) (s : σ)
    (payload : List UInt8) : Holds services (onIncomingData objects s payload).2 := by
  unfold onIncomingData
  split
  · unfold onIncomingInvoke
    split
    · exact holds
    · split <;> exact holds.looked _
  · exact holds
  · exact holds
  · exact holds

theorem state_kept (objects : Objects (Exported types σ)) (s : σ) {payload : List UInt8}
    (other : isInvoke tk payload = false) : (onIncomingData objects s payload).1.state = s := by
  unfold onIncomingData
  unfold isInvoke at other
  split
  · rename_i data invokes
    simp [invokes] at other
  · rfl
  · rfl
  · rfl

/-- The request of a proxy comes to what the object it is for makes of the call. -/
theorem served (lawful : tk.Lawful) {services : ServiceId → Option (Exported types σ)}
    {objects : Objects (Exported types σ)} (holds : Holds services objects)
    {q : ProxyCall types} (suits : Suits services q) (s : σ) {outcome : Outcome tk}
    (results : Results (onIncomingData objects s (proxyPayload q.1 q.2)).1 outcome) :
    (outcome, (onIncomingData objects s (proxyPayload q.1 q.2)).1.state) =
      serve services s q := by
  obtain ⟨⟨⟨name, version⟩, number⟩, c⟩ := q
  obtain ⟨rfl, dashFree, nearest⟩ := suits
  have decoded := readInvocation_dashFree lawful (o := ⟨⟨name, 1⟩, number⟩) dashFree c.method.name
    (writeArguments c.method.args c.arguments)
  have handled : (onIncomingData objects s (proxyPayload ⟨⟨name, 1⟩, number⟩ c)).1 =
      match objects.find ⟨⟨name, 1⟩, number⟩ with
      | .error text => failed text s
      | .ok e => invoke e.object e.chain c.method.name
          (writeArguments c.method.args c.arguments) s := by
    rw [onIncomingData, proxyPayload, request_invoke lawful]
    simp only [onIncomingInvoke, decoded]
    split <;> rfl
  rw [handled, holds.find] at results
  rw [handled, holds.find, serve]
  cases found : if number = 0 then services ⟨name, 1⟩ else none with
  | none =>
    simp only [found, Option.elim_none] at results ⊢
    rw [Results.unique lawful results (failed_results _ s)]
    rfl
  | some e =>
    have service : services ⟨name, 1⟩ = some e := (Option.ite_none_right_eq_some.mp found).2
    simp only [found, Option.elim_some, invoke_call lawful e.object (nearest e service)]
      at results ⊢
    obtain ⟨value, state⟩ := call_results e.object c s
    rw [Results.unique lawful results value, state]

end Serving
end PBus
