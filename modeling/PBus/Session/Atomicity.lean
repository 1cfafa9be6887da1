import PBus.Session.Clients

/-! The services of a process as its clients see them: each call takes effect at one moment
between its request and the end of the wait for it, and the calls of a client take effect in
their order. -/
namespace PBus
open Transition Connection Session Idl Serving

namespace Clientele
variable {tk : Toolkit} {types : IdlTypes tk} {σ C : Type} [DecidableEq C]
  {services : ServiceId → Option (Exported types σ)} {start h : Clientele types σ C}
  {hist : List (Label types C)}

theorem holds_run (started : Started start) (registered : start.objects.services = services)
    (run : Guarded Step (Orderly services) start hist h) : Holds services h.objects := by
  refine run.history (P := fun _ h => Holds services h.objects) ?_ ?_
  · intro past h l h' holds step _
    cases step with
    | @handle _ _ _ payload _ _ _ _ done =>
      have kept := holds.handled h.world payload
      rwa [done] at kept
    | call | «return» | pass => exact holds
  · refine ⟨registered, fun id e entry => ?_⟩
    rw [started.unused] at entry
    contradiction

theorem tokens_run (started : Started start)
    (run : Guarded Step (Orderly services) start hist h) (c : C) :
    (h.tokens c).length = (calls c hist).length ∧
      ∀ i serial ty, (h.tokens c)[i]? = some (serial, ty) → ∃ before q,
        before ++ [.called c serial q] <+: hist ∧ (calls c before).length = i ∧
        q.2.method.rtype = ty := by
  refine run.history (P := fun hist h => (h.tokens c).length = (calls c hist).length ∧
    ∀ i serial ty, (h.tokens c)[i]? = some (serial, ty) → ∃ before q,
      before ++ [.called c serial q] <+: hist ∧ (calls c before).length = i ∧
      q.2.method.rtype = ty) ?_ ?_
  · rintro past h l h' ⟨count, tokens⟩ step _
    have kept (same : h'.tokens c = h.tokens c) (none : l.call c = []) :
        (h'.tokens c).length = (calls c (past ++ [l])).length ∧
        ∀ i serial ty, (h'.tokens c)[i]? = some (serial, ty) → ∃ before q,
          before ++ [.called c serial q] <+: past ++ [l] ∧ (calls c before).length = i ∧
          q.2.method.rtype = ty := by
      rw [same, calls_concat, none, List.append_nil]
      refine ⟨count, fun i serial ty token => ?_⟩
      obtain ⟨before, q, here, rest⟩ := tokens i serial ty token
      exact ⟨before, q, here.trans (List.prefix_append _ _), rest⟩
    cases step with
    | @call c' serial q k moved =>
      by_cases here : c' = c
      · subst here
        simp only [Function.update_self, calls_concat, Label.call, if_true, List.length_append,
          List.length_singleton, count, true_and]
        intro i serial' ty token
        rw [List.getElem?_append] at token
        split at token
        · obtain ⟨before, q', here, rest⟩ := tokens i serial' ty token
          exact ⟨before, q', here.trans (List.prefix_append _ _), rest⟩
        · rename_i last
          obtain ⟨rfl, rfl⟩ : serial = serial' ∧ q.2.method.rtype = ty := by
            cases rest : i - (h.tokens c').length <;> simp_all
          refine ⟨past, q, List.prefix_refl _, ?_, rfl⟩
          have inside := (List.getElem?_eq_some_iff.mp token).1
          simp only [List.length_singleton] at inside
          omega
      · exact kept (Function.update_of_ne (Ne.symm here) _ _) (by simp [Label.call, here])
    | «return» | handle | pass => exact kept rfl rfl
  · simp [started.tokens c, calls]

theorem call_position {c : C} {i : Nat} {q : ProxyCall types}
    (made : (calls c hist)[i]? = some q) :
    ∃ before serial, before ++ [.called c serial q] <+: hist ∧ (calls c before).length = i := by
  have single (l : Label types C) : (l.call c).length ≤ 1 := by
    cases l <;> simp only [Label.call] <;> try split
    all_goals simp
  obtain ⟨before, l, here, number, gives⟩ := History.output_origin single made
  cases l with
  | called c' serial q' =>
    by_cases own : c' = c
    · obtain rfl : q' = q := by simpa [Label.call, own] using gives
      exact ⟨before, serial, own ▸ here, number⟩
    · simp [Label.call, own] at gives
  | returned | handled | passed => simp [Label.call] at gives

theorem call_suits (run : Guarded Step (Orderly services) start hist h) {c : C} {i : Nat}
    {q : ProxyCall types} (made : (calls c hist)[i]? = some q) : Suits services q := by
  obtain ⟨before, serial, here, -⟩ := call_position made
  obtain ⟨u, v, -, -, orderly⟩ := run.at_label here
  exact orderly.suits c serial q rfl

theorem calls_prefix (c : C) {before hist : List (Label types C)} (here : before <+: hist) :
    calls c before <+: calls c hist := by
  obtain ⟨rest, rfl⟩ := here
  simp [calls]

/-- An invoke that is handled is the next call of its client, and comes to what the services
make of that call. -/
theorem handled_serve {h' : Clientele types σ C} {c : C} {asked serial : UInt32}
    {payload : List UInt8} {outcome : Outcome tk} (lawful : tk.Lawful) (started : Started start)
    (registered : start.objects.services = services)
    (run : Guarded Step (Orderly services) start hist h)
    (step : Step h (.handled c asked payload outcome serial) h')
    (orderly : Orderly services hist h (.handled c asked payload outcome serial))
    (invokes : isInvoke tk payload = true) :
    ∃ q, (calls c hist)[(executions c hist).length]? = some q ∧
      serve services h.world q = (outcome, h'.world) := by
  have next := (executions_calls lawful started (.next run step orderly) c).1
  have same : calls c (hist ++ [.handled c asked payload outcome serial]) = calls c hist := by
    simp [calls_concat, Label.call]
  have execution : (Label.handled c asked payload outcome serial : Label types C).execution c =
      [payload] := by simp [Label.execution, invokes]
  rw [executions_concat, execution, same] at next
  obtain ⟨rest, whole⟩ := next
  have payloads : ((calls c hist).map fun q => proxyPayload q.1 q.2)[(executions c hist).length]? =
      some payload := by simp [← whole]
  rw [List.getElem?_map, Option.map_eq_some_iff] at payloads
  obtain ⟨q, made, rfl⟩ := payloads
  refine ⟨q, made, ?_⟩
  cases step with
  | handle done results =>
    have outcome := served lawful (holds_run started registered run) (call_suits run made)
      h.world (by rw [done]; exact results)
    rw [done] at outcome
    exact outcome.symm

theorem called_marked {before : List (Label types C)} {c : C} {serial : UInt32}
    {q : ProxyCall types} (here : before ++ [.called c serial q] <+: hist) :
    .called (c, (calls c before).length) q ∈ translate mark hist :=
  mem_translate here rfl

theorem marked_called {c : C} {n : Nat} {q : ProxyCall types}
    (member : .called (c, n) q ∈ translate mark hist) : n < (calls c hist).length := by
  obtain ⟨past, l, here, gives⟩ := translate_mem member
  cases l with
  | called c' serial q' =>
    simp only [mark, Option.some.injEq, Linearization.Mark.called.injEq, Prod.mk.injEq] at gives
    obtain ⟨⟨rfl, rfl⟩, rfl⟩ := gives
    exact History.count_lt here (x := q') (by simp [Label.call])
  | returned | passed => simp [mark] at gives
  | handled c' asked payload outcome serial =>
    simp only [mark, Option.ite_none_right_eq_some, Option.map_eq_some_iff] at gives
    obtain ⟨-, q', -, other⟩ := gives
    contradiction

theorem marked_took {c : C} {n : Nat} {q : ProxyCall types} {outcome : Outcome tk}
    (member : .took (c, n) q outcome ∈ translate mark hist) : n < (executions c hist).length := by
  obtain ⟨past, l, here, gives⟩ := translate_mem member
  cases l with
  | called | returned | passed => simp [mark] at gives
  | handled c' asked payload outcome' serial =>
    simp only [mark, Option.ite_none_right_eq_some, Option.map_eq_some_iff,
      Linearization.Mark.took.injEq, Prod.mk.injEq] at gives
    obtain ⟨invokes, q', -, ⟨rfl, rfl⟩, -, -⟩ := gives
    exact History.count_lt here (x := payload) (by simp [Label.execution, invokes])

theorem returns_outcome {p : ResponseParser tk} {outcome : Outcome tk}
    (returns : Rpc.Returns p.ty outcome (p.wait p.ty)) (typed : ∀ r, outcome = .ok r → r.1 = p.ty) :
    (p.wait p.ty).outcome = outcome := by
  unfold ResponseParser.wait at returns ⊢
  split
  · rename_i text threw
    simp only [threw, Rpc.Returns] at returns
    rcases returns with same | ⟨r, same, other⟩
    · exact same.symm
    · exact absurd (typed r same) other
  · rename_i unset
    simp only [unset, if_true, Rpc.Returns, true_and] at returns ⊢
    obtain ⟨r, rfl, same⟩ := returns
    rw [same (typed r rfl)]
    rfl

theorem serve_typed {s : σ} {q : ProxyCall types} {r : (ty : tk.Ty) × tk.Val ty}
    (served : (serve services s q).1 = .ok r) : r.1 = q.2.method.rtype := by
  unfold serve at served
  split at served
  · contradiction
  · rename_i e _
    cases done : (e.object q.2 s).1 with
    | error text => simp [done, Except.map] at served
    | ok value =>
      simp only [done, Except.map, Except.ok.injEq] at served
      rw [← served]

theorem answered_position {c : C} {handling : List (Rpc.Label tk)} {asked serial : UInt32}
    {payload : List UInt8} {outcome : Outcome tk}
    (run : Guarded Step (Orderly services) start hist h)
    (here : handling ++ [.answered .accepting asked payload outcome serial] <+: of c hist) :
    ∃ past, past ++ [.handled c asked payload outcome serial] <+: hist ∧ of c past = handling := by
  rw [of, ← translate_filterMap] at here
  obtain ⟨past, l, position, same, gives⟩ := translate_position here
  obtain ⟨u, v, -, step, -⟩ := run.at_label position
  obtain ⟨own, label⟩ : l.rpc.1 = c ∧
      l.rpc.2 = .answered .accepting asked payload outcome serial := by
    simpa [ofClient] using gives
  refine ⟨past, ?_, by rw [of, ← translate_filterMap, same]⟩
  cases step with
  | call | «return» => simp [Label.rpc] at label
  | handle =>
    simp only [Label.rpc, Rpc.Label.answered.injEq, true_and] at own label
    obtain ⟨rfl, rfl, rfl, rfl⟩ := label
    exact own ▸ position
  | pass other =>
    obtain rfl := label
    exact absurd trivial other

/-- What `Wait` gives for a token is what the call came to when it took effect. -/
theorem returned_took {c : C} {i : Nat} {serial : UInt32} {ty : tk.Ty} {p : ResponseParser tk}
    (lawful : tk.Lawful) (started : Started start) (registered : start.objects.services = services)
    (run : Guarded Step (Orderly services) start hist h)
    (token : (h.tokens c)[i]? = some (serial, ty))
    (found : (h.links c).requests .connecting serial = some p) (done : p.finished = true)
    (recent : ∀ before serial' q, before ++ [.called c serial' q] <+: hist →
      (calls c before).length = i → (Rpc.sent .connecting (of c hist)).length ≤
        (Rpc.sent .connecting (of c before)).length + 2 ^ 32) :
    ∃ q, .took (c, i) q (p.wait ty).outcome ∈ translate mark hist := by
  obtain ⟨before, q, here, number, rfl⟩ := (tokens_run started run c).2 i serial ty token
  have few := recent before serial q here number
  have linked := client_run run c
  have asked : of c before ++ [.invoked .connecting serial q.2.method.rtype
      (proxyPayload q.1 q.2)] <+: of c hist := by
    obtain ⟨rest, rfl⟩ := here
    simp [of, ofClient, Label.rpc]
  obtain ⟨last, payload, entry⟩ :=
    Rpc.table_run lawful (started.links c) linked .connecting serial p found
  obtain ⟨rfl, type, rfl⟩ := entry.own (started.links c) linked asked few
  obtain ⟨handling, asked', outcome, answer, there, count, shows_⟩ := entry.shown done few
  have order := Rpc.handled_before .connecting lawful (started.links c) linked there asked
    count
  obtain ⟨past, position, rfl⟩ := answered_position run there
  obtain ⟨u, v, runPast, step, orderly⟩ := run.at_label position
  obtain ⟨u', v', runBefore, -, -⟩ := run.at_label here
  have executed : executions c past = (calls c before).map fun q => proxyPayload q.1 q.2 := by
    rw [← executions_handled runPast c, ← calls_requested lawful runBefore c]
    exact congrArg _ order
  have invokes : isInvoke tk (proxyPayload q.1 q.2) = true := by
    rw [isInvoke, proxyPayload, request_invoke lawful]
  obtain ⟨q', made, served⟩ := handled_serve lawful started registered runPast step orderly invokes
  have index : (executions c past).length = i := by rw [executed, List.length_map, number]
  rw [index] at made
  obtain rfl : q' = q := by
    have first : (calls c hist)[i]? = some q := by
      have placed := History.output_at here (f := Label.call c) (x := q) (by simp [Label.call])
      rwa [← calls, ← calls, number] at placed
    obtain ⟨rest, whole⟩ := calls_prefix c ((List.prefix_append _ _).trans position)
    rw [← whole, List.getElem?_append_left (List.getElem?_eq_some_iff.mp made).1, made] at first
    exact Option.some.inj first
  have value : (p.wait q'.2.method.rtype).outcome = outcome := by
    have typed : ∀ r, outcome = .ok r → r.1 = p.ty := by
      rintro r rfl
      rw [type, serve_typed (congrArg Prod.fst served)]
    rw [← type]
    exact returns_outcome (shows_ p.ty) typed
  refine ⟨q', ?_⟩
  rw [value]
  exact mem_translate position (by simp [mark, invokes, index, made])

/-- The clients use one object: each call takes effect in one step, on the state the calls
before it have left. -/
theorem refines_object (lawful : tk.Lawful) (started : Started start)
    (registered : start.objects.services = services)
    (run : Guarded Step (Orderly services) start hist h) :
    Guarded (Linearization.Step (serve services)) Linearization.Proper start.world
      (translate mark hist) h.world := by
  refine run.simulate (r := Clientele.world) ?_ ?_
  · intro past h l h' before step orderly silent
    have step' := step
    cases step with
    | call | «return» => simp [mark] at silent
    | @handle c asked serial payload r objects outcome k done results =>
      cases invokes : isInvoke tk payload with
      | false =>
        have kept := state_kept h.objects h.world invokes
        rw [done] at kept
        exact kept
      | true =>
        obtain ⟨q, made, -⟩ := handled_serve lawful started registered before step' orderly invokes
        simp [mark, invokes, made] at silent
    | pass => rfl
  · intro past h l h' m before step orderly gives
    have step' := step
    cases step with
    | @call c serial q k moved =>
      obtain rfl := Option.some.inj gives
      exact ⟨.called _ _, fun req member => Nat.lt_irrefl _ (marked_called member)⟩
    | @«return» c i serial ty p token found done =>
      obtain rfl := Option.some.inj gives
      exact ⟨.returned _ _, returned_took lawful started registered before token found done
        (orderly.recent c i serial _ rfl)⟩
    | @handle c asked serial payload r objects outcome k done results =>
      cases invokes : isInvoke tk payload with
      | false => simp [mark, invokes] at gives
      | true =>
        obtain ⟨q, made, served⟩ :=
          handled_serve lawful started registered before step' orderly invokes
        obtain rfl : Linearization.Mark.took (c, (executions c past).length) q outcome = m := by
          simpa [mark, invokes, made] using gives
        obtain ⟨earlier, serial', here, number⟩ := call_position made
        refine ⟨.took _ served, number ▸ called_marked here, fun req res member => ?_⟩
        exact Nat.lt_irrefl _ (marked_took member)
    | pass => simp [mark] at gives

def observed (hist : List (Label types C)) :
    List (Linearization.Observation (C × Nat) (ProxyCall types) (Outcome tk)) :=
  Linearization.observations (translate mark hist)

def taken (hist : List (Label types C)) :
    List (Linearization.Entry (C × Nat) (ProxyCall types) (Outcome tk)) :=
  Linearization.order (translate mark hist)

def takenOf (c : C) (hist : List (Label types C)) : List (ProxyCall types) :=
  ((taken hist).filter fun e => e.op.1 = c).map Linearization.Entry.req

theorem takenOf_concat (c : C) (past : List (Label types C)) (l : Label types C) :
    takenOf c (past ++ [l]) = takenOf c past ++
      (((mark past l).bind Linearization.Mark.entry).toList.filter fun e => e.op.1 = c).map
        Linearization.Entry.req := by
  have one : Linearization.order (translate mark (past ++ [l])) =
      taken past ++ ((mark past l).bind Linearization.Mark.entry).toList := by
    rw [translate_concat]
    cases gives : mark past l with
    | none => simp [taken]
    | some m => simp [taken, Linearization.order_concat]
  rw [takenOf, taken, one, List.filter_append, List.map_append]
  rfl

theorem takenOf_run (lawful : tk.Lawful) (started : Started start)
    (registered : start.objects.services = services)
    (run : Guarded Step (Orderly services) start hist h) (c : C) :
    takenOf c hist = (calls c hist).take (executions c hist).length := by
  have both : Guarded Step (Orderly services) start hist h ∧
      takenOf c hist = (calls c hist).take (executions c hist).length := by
    refine run.history (P := fun hist h => Guarded Step (Orderly services) start hist h ∧
      takenOf c hist = (calls c hist).take (executions c hist).length) ?_ ⟨.start, rfl⟩
    rintro past h l h' ⟨run, before⟩ step orderly
    have run' := run.next step orderly
    refine ⟨run', ?_⟩
    have within : (executions c past).length ≤ (calls c past).length := by
      simpa using (executions_calls lawful started run c).1.length_le
    rw [takenOf_concat, executions_concat, calls_concat, before]
    have step' := step
    cases step with
    | @call c' =>
      simp only [mark, Option.bind_some, Linearization.Mark.entry, Option.toList_none,
        List.filter_nil, List.map_nil, List.append_nil, Label.execution]
      rw [List.take_append_of_le_length within]
    | «return» | pass => simp [mark, Linearization.Mark.entry, Label.execution, Label.call]
    | @handle c' asked serial payload r objects outcome k done results =>
      cases invokes : isInvoke tk payload with
      | false => simp [mark, invokes, Label.execution, Label.call]
      | true =>
        obtain ⟨q, made, -⟩ := handled_serve lawful started registered run step' orderly invokes
        by_cases own : c' = c
        · subst own
          simp [mark, invokes, made, Label.execution, Label.call, Linearization.Mark.entry,
            List.take_add_one]
        · simp [mark, invokes, made, Label.execution, Label.call, Linearization.Mark.entry, own]
  exact both.2

/-- Runs too short for a serial to be used twice, with these calls. -/
def Brief (allowed : ProxyCall types → Prop) (past : List (Label types C))
    (_h : Clientele types σ C) (l : Label types C) : Prop :=
  (∀ x ∈ l.rpc.2.link, Link.Calm x) ∧ past.length < 2 ^ 32 ∧
    ∀ q ∈ l.call l.rpc.1, allowed q

instance (allowed : ProxyCall types → Prop) [DecidablePred allowed] (past : List (Label types C))
    (h : Clientele types σ C) (l : Label types C) : Decidable (Brief allowed past h l) :=
  inferInstanceAs (Decidable (_ ∧ _ ∧ _))

theorem Brief.orderly {allowed : ProxyCall types → Prop}
    (suits : ∀ q, allowed q → Suits services q) {past : List (Label types C)}
    {h : Clientele types σ C} {l : Label types C} (brief : Brief allowed past h l) :
    Orderly services past h l := by
  obtain ⟨calm, short, calls⟩ := brief
  have few (c : C) : (of c past).length < 2 ^ 32 :=
    Nat.lt_of_le_of_lt (List.length_filterMap_le _ _) short
  constructor
  case peaceful => exact Rpc.Brief.peaceful ⟨calm, few _⟩
  case suits =>
    rintro c serial q rfl
    exact suits q (calls q (by simp [Label.call, Label.rpc]))
  case recent =>
    intro c i serial result _ before serial' q _ _
    have := Rpc.sent_length_le .connecting (of c past)
    have := few c
    omega

theorem played {allowed : ProxyCall types → Prop} [DecidablePred allowed]
    (suits : ∀ q, allowed q → Suits services q) (start : Clientele types σ C)
    (events : List (Event types C)) :
    Guarded Step (Orderly services) start (play perform (Brief allowed) [] start events).1
      (play perform (Brief allowed) [] start events).2 :=
  (play_guarded perform (Brief allowed) perform_step .start events).mono (Brief.orderly suits)

instance : DecidableEq (ArgType plainTypes)
  | .string, .string => isTrue rfl
  | .string, .scalar _ _ | .scalar _ _, .string => isFalse (by simp)
  | .scalar ty _, .scalar ty' _ => decidable_of_iff (ty = ty') (by simp)

def add : Method plainTypes := ⟨['a'], [number], true⟩

def counterChain : List (Interface plainTypes) := [⟨['c'], [add], by decide⟩]

def counter : Object plainTypes UInt32 := fun c s =>
  match c with
  | ⟨⟨_, [.scalar true _], true⟩, (n, ())⟩ =>
    let sum : UInt32 := s + (show UInt32 from n)
    (.ok sum, sum)
  | ⟨m, _⟩ => (.ok (Toolkit.plain.initial m.rtype), s)

def counterId : ObjectId := ⟨⟨['c'], 1⟩, 0⟩

/-- Two clients of a new counter. -/
def counting : Clientele plainTypes UInt32 Bool where
  links _ := { link := .fresh }
  objects := ⟨fun id => if id = counterId.type then some ⟨counterChain, counter⟩ else none,
    fun _ => none⟩
  world := 0

def addition (n : UInt32) : ProxyCall plainTypes := (counterId, ⟨add, n, ()⟩)

def Addition (q : ProxyCall plainTypes) : Prop :=
  q.1 = counterId ∧ q.2.method.name = add.name ∧ q.2.method.args = add.args ∧
    q.2.method.rtype = add.rtype

instance : DecidablePred Addition := fun _ => inferInstanceAs (Decidable (_ ∧ _ ∧ _ ∧ _))

theorem counting_started : Started counting where
  links _ := .joined _ (.joined (.outgoing _) (.accepted _ 0) rfl)
  unused _ := rfl
  tokens _ := rfl

theorem addition_suits (q : ProxyCall plainTypes) (adds : Addition q) :
    Suits counting.objects.services q := by
  obtain ⟨id, ⟨name, args, rtype⟩, arguments⟩ := q
  obtain ⟨rfl, rfl, rfl, rfl⟩ := adds
  have dashFree : ClassId.DashFree counterId.type.name := by decide
  refine ⟨rfl, dashFree, fun e service => ?_⟩
  have here : counting.objects.services counterId.type = some ⟨counterChain, counter⟩ := by
    simp [counting]
  obtain rfl := Option.some.inj (here.symm.trans service)
  exact ⟨[], _, [], rfl, List.mem_singleton.mpr rfl, by simp⟩

/-- Two calls, of which the second takes effect first. -/
def additions : List (Event plainTypes Bool) :=
  [.call false (addition 5), .call true (addition 7),
    .move true (.move .connecting (.output 99)), .move false (.move .connecting (.output 99)),
    .move true (.move .accepting (.input (frame (proxyPayload counterId (addition 7).2)))),
    .handle true (.ok ⟨true, (7 : UInt32)⟩), .move true (.move .accepting .returned),
    .move false (.move .accepting (.input (frame (proxyPayload counterId (addition 5).2)))),
    .handle false (.ok ⟨true, (12 : UInt32)⟩), .move false (.move .accepting .returned),
    .move false (.move .accepting (.output 99)), .move true (.move .accepting (.output 99)),
    .move false (.move .connecting (.input (frame (answerPayload 0 (.ok (Rpc.number 12)))))),
    .move true (.move .connecting (.input (frame (answerPayload 0 (.ok (Rpc.number 7)))))),
    .wait false 0, .wait true 0]

def gave : Label plainTypes Bool → Option (Bool × UInt32)
  | .returned c _ _ (.value true n) => some (c, n)
  | _ => none

end Clientele

/-- Every run of a service process with any number of clients: the calls of each client take
effect in the order in which it made them, none of them twice, and all of them once nothing is
under way from it; and the state of the services is the one all these calls lead to, one after
the other. -/
theorem calls_take_effect_once {tk : Toolkit} {types : IdlTypes tk} {σ C : Type} [DecidableEq C]
    {start h : Clientele types σ C} {hist : List (Clientele.Label types C)} (lawful : tk.Lawful)
    (started : Clientele.Started start)
    (run : Guarded Clientele.Step (Clientele.Orderly start.objects.services) start hist h) :
    (∀ c, Clientele.takenOf c hist <+: Clientele.calls c hist ∧
      (Rpc.Settled .connecting (h.links c) →
        Clientele.takenOf c hist = Clientele.calls c hist)) ∧
    h.world = Linearization.final (serve start.objects.services) start.world
      ((Clientele.taken hist).map Linearization.Entry.req) := by
  refine ⟨fun c => ?_, Linearization.state_run (Clientele.refines_object lawful started rfl run)⟩
  rw [Clientele.takenOf_run lawful started rfl run c]
  refine ⟨List.take_prefix _ _, fun settled => ?_⟩
  have all := (Clientele.executions_calls lawful started run c).2 settled
  rw [all, List.length_map, List.take_length]

theorem calls_take_effect_once_counter :
    ∃ (hist : List (Clientele.Label plainTypes Bool)) (h : Clientele plainTypes UInt32 Bool),
      (∀ c, Clientele.takenOf c hist <+: Clientele.calls c hist) ∧
      (Clientele.taken hist).length = 2 ∧ h.world = 12 ∧
      h.world = Linearization.final (serve Clientele.counting.objects.services) 0
        ((Clientele.taken hist).map Linearization.Entry.req) := by
  have run := Clientele.played Clientele.addition_suits Clientele.counting Clientele.additions
  have once := calls_take_effect_once Toolkit.plain_lawful Clientele.counting_started run
  exact ⟨_, _, fun c => (once.1 c).1, by decide +kernel, by decide +kernel, once.2⟩

end PBus
