import PBus.Foundation.Linearization
import PBus.Foundation.Simulation
import PBus.Session.Handling
import PBus.Session.Serving

/-! A service process and any number of clients, each on a connection of its own. The clients
use proxies; the steps of the connections interleave in any way. -/
namespace PBus
open Transition Connection Session Idl Serving

/-- `links c` joins client `c`, the connecting side, with the service process, whose services
are `objects` with the state `world`. The tokens of a client are what `Invoke` returned to its
proxies, with the type each waits for. -/
structure Clientele {tk : Toolkit} (types : IdlTypes tk) (σ C : Type) where
  links : C → Rpc tk
  objects : Objects (Exported types σ)
  world : σ
  tokens : C → List (UInt32 × tk.Ty) := fun _ => []

/-- How `Wait` ends, as a value returned or an exception thrown. -/
def Waited.outcome {tk : Toolkit} : Waited tk → Outcome tk
  | .value ty v => .ok ⟨ty, v⟩
  | .rethrown text => .error text
  | .mismatched => .error "mismatched type for response parser".toList

namespace Clientele
variable {tk : Toolkit} {types : IdlTypes tk} {σ C : Type}

inductive Label (types : IdlTypes tk) (C : Type) where
  /-- A proxy's method has made its request. -/
  | called (c : C) (serial : UInt32) (q : ProxyCall types)
  /-- `Wait` for the token with this number has ended. -/
  | returned (c : C) (i : Nat) (serial : UInt32) (result : Waited tk)
  /-- The service process has handled a request of the client and sent the answer. -/
  | handled (c : C) (asked : UInt32) (payload : List UInt8) (outcome : Outcome tk)
      (serial : UInt32)
  /-- Anything else on a connection. -/
  | passed (c : C) (l : Rpc.Label tk)

def Label.rpc : Label types C → C × Rpc.Label tk
  | .called c serial q => (c, .invoked .connecting serial q.2.method.rtype (proxyPayload q.1 q.2))
  | .returned c _ serial result => (c, .waited .connecting serial result)
  | .handled c asked payload outcome serial =>
    (c, .answered .accepting asked payload outcome serial)
  | .passed c l => (c, l)

/-- The steps that have a label of their own. -/
def Own : Rpc.Label tk → Prop
  | .invoked .connecting _ _ _ | .waited .connecting _ _ | .answered .accepting _ _ _ _ => True
  | _ => False

variable [DecidableEq C]

inductive Step : Clientele types σ C → Label types C → Clientele types σ C → Prop where
  | call {h : Clientele types σ C} {c : C} {serial : UInt32} {q : ProxyCall types} {k : Rpc tk} :
      Rpc.Step (h.links c)
        (.invoked .connecting serial q.2.method.rtype (proxyPayload q.1 q.2)) k →
      Step h (.called c serial q) { h with
        links := Function.update h.links c k
        tokens := Function.update h.tokens c (h.tokens c ++ [(serial, q.2.method.rtype)]) }
  | «return» {h : Clientele types σ C} {c : C} {i : Nat} {serial : UInt32} {ty : tk.Ty}
      {parser : ResponseParser tk} : (h.tokens c)[i]? = some (serial, ty) →
      (h.links c).requests .connecting serial = some parser → parser.finished = true →
      Step h (.returned c i serial (parser.wait ty)) h
  | handle {h : Clientele types σ C} {c : C} {asked serial : UInt32} {payload : List UInt8}
      {r : Invoked types σ} {objects : Objects (Exported types σ)} {outcome : Outcome tk}
      {k : Rpc tk} : onIncomingData h.objects h.world payload = (r, objects) →
      Results r outcome →
      Rpc.Step (h.links c) (.answered .accepting asked payload outcome serial) k →
      Step h (.handled c asked payload outcome serial)
        { h with links := Function.update h.links c k, objects, world := r.state }
  | pass {h : Clientele types σ C} {c : C} {l : Rpc.Label tk} {k : Rpc tk} : ¬ Own l →
      Rpc.Step (h.links c) l k →
      Step h (.passed c l) { h with links := Function.update h.links c k }

def ofClient (c : C) (l : Label types C) : Option (Rpc.Label tk) :=
  if l.rpc.1 = c then some l.rpc.2 else none

def of (c : C) (hist : List (Label types C)) : List (Rpc.Label tk) := hist.filterMap (ofClient c)

def Label.call (c : C) : Label types C → List (ProxyCall types)
  | .called c' _ q => if c' = c then [q] else []
  | _ => []

def calls (c : C) (hist : List (Label types C)) : List (ProxyCall types) :=
  hist.flatMap (Label.call c)

def Label.execution (c : C) : Label types C → List (List UInt8)
  | .handled c' _ payload _ _ => if c' = c ∧ isInvoke tk payload then [payload] else []
  | _ => []

/-- The requests of a client for which a method was looked up. -/
def executions (c : C) (hist : List (Label types C)) : List (List UInt8) :=
  hist.flatMap (Label.execution c)

/-- Every connection is new, and no object has been made yet. -/
structure Started (h : Clientele types σ C) : Prop where
  links : ∀ c, Rpc.Started (h.links c)
  unused : ∀ id, h.objects.localObjects id = none
  tokens : ∀ c, h.tokens c = []

/-- The connections are peaceful, the proxies are those of the services' interfaces, and a
proxy waits before 2^32 frames have been sent behind its request. -/
structure Orderly (services : ServiceId → Option (Exported types σ))
    (past : List (Label types C)) (h : Clientele types σ C) (l : Label types C) : Prop where
  peaceful : Rpc.Peaceful (of l.rpc.1 past) (h.links l.rpc.1) l.rpc.2
  suits : ∀ c serial q, l = .called c serial q → Suits services q
  recent : ∀ c i serial result, l = .returned c i serial result → ∀ before serial' q,
    before ++ [.called c serial' q] <+: past → (calls c before).length = i →
    (Rpc.sent .connecting (of c past)).length ≤
      (Rpc.sent .connecting (of c before)).length + 2 ^ 32

/-- What a step is for the users of the services. -/
def mark (past : List (Label types C)) :
    Label types C → Option (Linearization.Mark (C × Nat) (ProxyCall types) (Outcome tk))
  | .called c _ q => some (.called (c, (calls c past).length) q)
  | .returned c i _ result => some (.returned (c, i) result.outcome)
  | .handled c _ payload outcome _ =>
    if isInvoke tk payload then
      (calls c past)[(executions c past).length]?.map fun q =>
        .took (c, (executions c past).length) q outcome
    else none
  | .passed _ _ => none

inductive Event (types : IdlTypes tk) (C : Type) where
  | call (c : C) (q : ProxyCall types)
  | wait (c : C) (i : Nat)
  /-- The service process handles what it was given, which comes to `outcome`. -/
  | handle (c : C) (outcome : Outcome tk)
  | move (c : C) (event : Rpc.Event tk)

instance (l : Rpc.Label tk) : Decidable (Own l) :=
  match l with
  | .invoked .connecting _ _ _ | .waited .connecting _ _ | .answered .accepting _ _ _ _ =>
    isTrue trivial
  | .invoked .accepting _ _ _ | .waited .accepting _ _ | .answered .connecting _ _ _ _
  | .released _ _ _ | .moved _ _ => isFalse id

def perform (h : Clientele types σ C) : Event types C → Option (Label types C × Clientele types σ C)
  | .call c q =>
    match (h.links c).perform (.invoke .connecting q.2.method.rtype q.1 q.2.method.name
      (writeArguments q.2.method.args q.2.arguments)) with
    | some (.invoked .connecting serial _ _, k) => some (.called c serial q, { h with
        links := Function.update h.links c k
        tokens := Function.update h.tokens c (h.tokens c ++ [(serial, q.2.method.rtype)]) })
    | _ => none
  | .wait c i =>
    match (h.tokens c)[i]? with
    | some (serial, ty) =>
      match (h.links c).requests .connecting serial with
      | some parser =>
        if parser.finished then some (.returned c i serial (parser.wait ty), h) else none
      | none => none
    | none => none
  | .handle c outcome =>
    match (h.links c).perform (.answer .accepting outcome) with
    | some (.answered .accepting asked payload outcome serial, k) =>
      let (r, objects) := onIncomingData h.objects h.world payload
      if Results r outcome then some (.handled c asked payload outcome serial,
        { h with links := Function.update h.links c k, objects, world := r.state })
      else none
    | _ => none
  | .move c event =>
    match (h.links c).perform event with
    | some (l, k) =>
      if Own l then none
      else some (.passed c l, { h with links := Function.update h.links c k })
    | none => none

theorem perform_step {h h' : Clientele types σ C} {l : Label types C} {event : Event types C}
    (performed : h.perform event = some (l, h')) : Step h l h' := by
  cases event with
  | call c q =>
    simp only [perform] at performed
    split at performed
    · rename_i serial ty payload k moved
      have step := Rpc.perform_step moved
      simp only [Rpc.perform, Option.map_eq_some_iff, Prod.mk.injEq, Rpc.Label.invoked.injEq,
        true_and] at moved
      obtain ⟨⟨serial', link⟩, -, ⟨rfl, rfl, rfl⟩, -⟩ := moved
      simp only [Option.some.injEq, Prod.mk.injEq] at performed
      obtain ⟨rfl, rfl⟩ := performed
      exact .call step
    · contradiction
  | wait c i =>
    simp only [perform] at performed
    split at performed
    · rename_i serial ty token
      split at performed
      · rename_i parser found
        simp only [possible_iff] at performed
        obtain ⟨done, rfl, rfl⟩ := performed
        exact .return token found done
      · contradiction
    · contradiction
  | handle c outcome =>
    simp only [perform] at performed
    split at performed
    · rename_i asked payload outcome serial k moved
      simp only [possible_iff] at performed
      obtain ⟨results, rfl, rfl⟩ := performed
      exact .handle rfl results (Rpc.perform_step moved)
    · contradiction
  | move c event =>
    simp only [perform] at performed
    split at performed
    · rename_i l k moved
      simp only [Option.ite_none_left_eq_some, Option.some.injEq, Prod.mk.injEq] at performed
      obtain ⟨other, rfl, rfl⟩ := performed
      exact .pass other (Rpc.perform_step moved)
    · contradiction

theorem of_concat (c : C) (past : List (Label types C)) (l : Label types C) :
    of c (past ++ [l]) = of c past ++ (ofClient c l).toList := by
  rw [of, List.filterMap_append]
  cases gives : ofClient c l <;> simp [of, gives]

theorem Step.rpc {h h' : Clientele types σ C} {l : Label types C} (step : Step h l h') :
    Rpc.Step (h.links l.rpc.1) l.rpc.2 (h'.links l.rpc.1) ∧
      ∀ c, l.rpc.1 ≠ c → h'.links c = h.links c := by
  have others {c₀ : C} {k : Rpc tk} : ∀ c, c₀ ≠ c → Function.update h.links c₀ k c = h.links c :=
    fun c apart => Function.update_of_ne (Ne.symm apart) _ _
  cases step with
  | call moved | handle _ _ moved | pass _ moved =>
    refine ⟨?_, others⟩
    simp only [Label.rpc, Function.update_self]
    exact moved
  | «return» token found done => exact ⟨.wait _ found done, fun _ _ => rfl⟩

theorem client_run {services : ServiceId → Option (Exported types σ)}
    {start h : Clientele types σ C} {hist : List (Label types C)}
    (run : Guarded Step (Orderly services) start hist h) (c : C) :
    Guarded Rpc.Step Rpc.Peaceful (start.links c) (of c hist) (h.links c) := by
  rw [of, ← translate_filterMap (ofClient c) hist]
  refine run.simulate (r := fun h => h.links c) ?_ ?_
  · intro past h l h' _ step _ silent
    have apart : l.rpc.1 ≠ c := fun here => by simp [ofClient, here] at silent
    exact step.rpc.2 c apart
  · intro past h l h' m _ step orderly gives
    rw [translate_filterMap]
    obtain ⟨here, rfl⟩ : l.rpc.1 = c ∧ l.rpc.2 = m := by simpa [ofClient] using gives
    subst here
    exact ⟨step.rpc.1, orderly.peaceful⟩

theorem calls_concat (c : C) (past : List (Label types C)) (l : Label types C) :
    calls c (past ++ [l]) = calls c past ++ l.call c := by simp [calls]

theorem executions_concat (c : C) (past : List (Label types C)) (l : Label types C) :
    executions c (past ++ [l]) = executions c past ++ l.execution c := by simp [executions]

/-- The invokes among the requests of a client are the calls of its proxies. -/
theorem calls_requested {services : ServiceId → Option (Exported types σ)}
    {start h : Clientele types σ C} {hist : List (Label types C)} (lawful : tk.Lawful)
    (run : Guarded Step (Orderly services) start hist h) (c : C) :
    (Rpc.requested .connecting (of c hist)).filter (isInvoke tk) =
      (calls c hist).map fun q => proxyPayload q.1 q.2 := by
  refine run.history (P := fun hist _ =>
    (Rpc.requested .connecting (of c hist)).filter (isInvoke tk) =
      (calls c hist).map fun q => proxyPayload q.1 q.2) ?_ rfl
  intro past h l h' before step _
  rw [of_concat, Rpc.requested, List.flatMap_append, List.filter_append, ← Rpc.requested, before,
    calls_concat, List.map_append]
  congr 1
  by_cases here : l.rpc.1 = c
  swap
  · have other : l.call c = [] := by cases l <;> simp_all [Label.call, Label.rpc]
    simp [ofClient, here, other]
  rw [ofClient, if_pos here, Option.toList_some, List.flatMap_singleton]
  cases step with
  | @call c' serial q k moved =>
    have invokes : isInvoke tk (proxyPayload q.1 q.2) = true := by
      rw [isInvoke, proxyPayload, request_invoke lawful]
    simp only [Label.rpc] at here
    simp [Label.rpc, Rpc.Label.requested, Label.call, here, invokes]
  | «return» | handle => simp [Label.rpc, Rpc.Label.requested, Label.call]
  | @pass c' l k other moved =>
    cases moved with
    | invoke side =>
      cases side with
      | connecting => exact absurd trivial other
      | accepting => simp [Label.rpc, Rpc.Label.requested, Label.call]
    | release side serial o =>
      have unread : isInvoke tk (releasePayload tk o) = false := by
        rw [isInvoke, request_release lawful]
      cases side <;> simp [Label.rpc, Rpc.Label.requested, Label.call, unread]
    | event | dispatch | answer | lost | wait =>
      simp [Label.rpc, Rpc.Label.requested, Label.call]

/-- The invokes among the requests handled for a client are those a method was looked up for. -/
theorem executions_handled {services : ServiceId → Option (Exported types σ)}
    {start h : Clientele types σ C} {hist : List (Label types C)}
    (run : Guarded Step (Orderly services) start hist h) (c : C) :
    (Rpc.handled .accepting (of c hist)).filter (isInvoke tk) = executions c hist := by
  refine run.history (P := fun hist _ =>
    (Rpc.handled .accepting (of c hist)).filter (isInvoke tk) = executions c hist) ?_ rfl
  intro past h l h' before step _
  rw [of_concat, Rpc.handled, List.flatMap_append, List.filter_append, ← Rpc.handled, before,
    executions_concat]
  congr 1
  by_cases here : l.rpc.1 = c
  swap
  · have other : l.execution c = [] := by cases l <;> simp_all [Label.execution, Label.rpc]
    simp [ofClient, here, other]
  rw [ofClient, if_pos here, Option.toList_some, List.flatMap_singleton]
  cases step with
  | call | «return» => simp [Label.rpc, Rpc.Label.handled, Label.execution]
  | @handle c' asked serial payload r objects outcome k =>
    simp only [Label.rpc] at here
    cases invokes : isInvoke tk payload <;>
      simp [Label.rpc, Rpc.Label.handled, Label.execution, here, invokes]
  | @pass c' l k other moved =>
    cases moved with
    | @answer _ side =>
      cases side with
      | accepting => exact absurd trivial other
      | connecting => simp [Label.rpc, Rpc.Label.handled, Label.execution]
    | invoke | release | event | dispatch | lost | wait =>
      simp [Label.rpc, Rpc.Label.handled, Label.execution]

/-- The methods called for a client are those of its first calls, in their order. -/
theorem executions_calls {services : ServiceId → Option (Exported types σ)}
    {start h : Clientele types σ C} {hist : List (Label types C)} (lawful : tk.Lawful)
    (started : Started start) (run : Guarded Step (Orderly services) start hist h) (c : C) :
    executions c hist <+: (calls c hist).map (fun q => proxyPayload q.1 q.2) ∧
      (Rpc.Settled .connecting (h.links c) →
        executions c hist = (calls c hist).map fun q => proxyPayload q.1 q.2) := by
  obtain ⟨first, all⟩ := Rpc.handled_requested lawful (started.links c) (client_run run c)
    .connecting
  rw [← executions_handled run c, ← calls_requested lawful run c]
  constructor
  · exact ((List.prefix_append _ _).trans first).filter _
  · intro settled
    rw [← all settled]
    rfl

end Clientele
end PBus
