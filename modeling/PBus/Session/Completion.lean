import PBus.Session.Atomicity
import PBus.Session.Quiescence

/-! A service process and its clients when the clients make no more calls: every call that was
made takes effect, and the `Wait` for it ends with what it came to. -/
namespace PBus
open Transition Connection Session Idl Serving

namespace Rpc
variable {tk : Toolkit}

theorem handle_asks {payload : List UInt8} (asks : asks tk payload = true)
    (result : Outcome tk) : ∃ outcome, handle tk payload result = some outcome := by
  unfold Rpc.asks at asks
  unfold handle
  cases read : request tk payload with
  | error text => exact ⟨_, rfl⟩
  | ok kind =>
    cases kind with
    | exception data | result data => simp [read] at asks
    | invoke data =>
      cases decoded : readInvocation tk data with
      | error text => exact ⟨.error text, by simp only [decoded]⟩
      | ok i => exact ⟨result, by simp only [decoded]⟩

theorem requested_asks {start k : Rpc tk} {hist : List (Label tk)} (lawful : tk.Lawful)
    (run : Guarded Step Peaceful start hist k) (side : Side) :
    ∀ payload ∈ requested side hist, asks tk payload = true := by
  refine run.history (P := fun hist _ => ∀ payload ∈ requested side hist,
    asks tk payload = true) ?_ fun payload member => by contradiction
  intro past k l k' before step _
  simp only [requested, List.flatMap_append, List.flatMap_singleton] at before ⊢
  intro payload member
  rcases List.mem_append.mp member with old | new
  · exact before payload old
  · cases step with
    | invoke side' serial ty o method args =>
      simp only [Label.requested] at new
      split at new
      · exact List.mem_singleton.mp new ▸ asks_invoke lawful o method args
      · contradiction
    | release side' serial o =>
      simp only [Label.requested] at new
      split at new
      · exact List.mem_singleton.mp new ▸ asks_release lawful o
      · contradiction
    | event | dispatch | answer | lost | wait => contradiction

theorem invoked_entry {k k' : Rpc tk} {side : Side} {ty : tk.Ty} {payload : List UInt8}
    (step : Step k (.invoked side serial ty payload) k') :
    k'.requests side serial = some (.new ty) := by
  cases step
  simp

end Rpc

namespace Clientele
variable {tk : Toolkit} {types : IdlTypes tk} {σ C : Type} [DecidableEq C]
  {services : ServiceId → Option (Exported types σ)} {start h : Clientele types σ C}
  {hist : List (Label types C)}

/-- The steps that are taken while nobody makes a request. -/
def Label.Advances : Label types C → Prop
  | .handled _ _ _ _ _ => True
  | .passed _ l => l.Advances
  | .called _ _ _ | .returned _ _ _ _ => False

/-- Whatever the services have come to, what they answer fits into a frame. -/
def Answerable (services : ServiceId → Option (Exported types σ)) (payload : List UInt8) : Prop :=
  ∀ objects s outcome, Holds services objects →
    Results (onIncomingData objects s payload).1 outcome →
      ∀ asked, (answerPayload asked outcome).length < 2 ^ 32

/-- An orderly run to a state in which all the connections are in the poll and the requests made
so far can be answered, those of the clients by the services. -/
structure Live (services : ServiceId → Option (Exported types σ)) (start : Clientele types σ C)
    (past : List (Label types C)) (h : Clientele types σ C) : Prop where
  run : Guarded Step (Orderly services) start past h
  registered : ∀ c side, Rpc.Registered ((h.links c).link.ends side)
  few : ∀ c, Rpc.made (of c past) < 2 ^ 32
  answerable : ∀ c, ∀ payload ∈ Rpc.requested .connecting (of c past),
    Answerable services payload
  replies : ∀ c, ∀ payload ∈ Rpc.requested .accepting (of c past), Rpc.Answerable tk payload

/-- Every call has taken effect, and the `Wait` for it can end, with what it came to. -/
def Completed (past : List (Label types C)) (h : Clientele types σ C) : Prop :=
  ∀ c i q, (calls c past)[i]? = some q → ∃ serial p,
    (h.tokens c)[i]? = some (serial, q.2.method.rtype) ∧
    (h.links c).requests .connecting serial = some p ∧ p.finished = true ∧
    .took (c, i) q (p.wait q.2.method.rtype).outcome ∈ translate mark past

theorem Live.link (lawful : tk.Lawful) (started : Started start)
    (registered : start.objects.services = services) (live : Live services start hist h) (c : C) :
    Rpc.Live (start.links c) (of c hist) (h.links c) where
  run := client_run live.run c
  registered := live.registered c
  few := live.few c
  answerable side payload member := by
    cases side with
    | accepting => exact live.replies c payload member
    | connecting =>
      intro asked
      have asks := Rpc.requested_asks lawful (client_run live.run c) .connecting payload member
      obtain ⟨_, handles⟩ := Rpc.handle_asks asks (.error [])
      obtain ⟨outcome, results, handles⟩ := results_exist h.objects h.world handles
      have holds := holds_run started registered live.run
      exact ⟨outcome, outcome, handles,
        live.answerable c payload member _ _ _ holds results asked⟩

theorem Step.advances {h' : Clientele types σ C} {l : Label types C} (step : Step h l h')
    (advances : l.Advances) : l.rpc.2.Advances := by
  cases step with
  | call | «return» => contradiction
  | handle => trivial
  | pass => exact advances

theorem of_other {l : Label types C} {c : C} (apart : l.rpc.1 ≠ c) (past : List (Label types C)) :
    of c (past ++ [l]) = of c past := by
  rw [of_concat, ofClient, if_neg apart, Option.toList_none, List.append_nil]

theorem of_own (past : List (Label types C)) (l : Label types C) :
    of l.rpc.1 (past ++ [l]) = of l.rpc.1 past ++ [l.rpc.2] := by
  rw [of_concat, ofClient, if_pos rfl, Option.toList_some]

theorem Live.next {h' : Clientele types σ C} {l : Label types C} (lawful : tk.Lawful)
    (started : Started start) (registered : start.objects.services = services)
    (live : Live services start hist h) (step : Step h l h') (orderly : Orderly services hist h l)
    (advances : l.Advances) : Live services start (hist ++ [l]) h' := by
  have moves := step.rpc
  have own := (live.link lawful started registered l.rpc.1).next moves.1 orderly.peaceful
    (step.advances advances)
  rw [← of_own] at own
  have unrequested (c : C) (side : Side) :
      Rpc.requested side (of c (hist ++ [l])) = Rpc.requested side (of c hist) := by
    by_cases here : l.rpc.1 = c
    · subst here
      rw [of_own, Rpc.requested_advance (step.advances advances)]
    · rw [of_other here]
  constructor
  case run => exact live.run.next step orderly
  case registered =>
    intro c
    by_cases here : l.rpc.1 = c
    · exact here ▸ own.registered
    · rw [moves.2 c here]
      exact live.registered c
  case few =>
    intro c
    rw [Rpc.made, unrequested, unrequested]
    exact live.few c
  case answerable =>
    intro c
    rw [unrequested]
    exact live.answerable c
  case replies =>
    intro c
    rw [unrequested]
    exact live.replies c

def rest [Fintype C] (past : List (Label types C)) (h : Clientele types σ C) : Nat × Nat :=
  (∑ c, (Rpc.rest (of c past) (h.links c)).1, ∑ c, (Rpc.rest (of c past) (h.links c)).2)

theorem rest_lessens [Fintype C] {h' : Clientele types σ C} {l : Label types C}
    (lawful : tk.Lawful) (started : Started start)
    (registered : start.objects.services = services) (live : Live services start hist h)
    (step : Step h l h') (orderly : Orderly services hist h l) (advances : l.Advances) :
    Prod.Lex (· < ·) (· < ·) (rest (hist ++ [l]) h') (rest hist h) := by
  have moves := step.rpc
  have less := Rpc.rest_lessens lawful (started.links l.rpc.1)
    (live.link lawful started registered l.rpc.1) moves.1 orderly.peaceful (step.advances advances)
  rw [← of_own] at less
  apply lex_sum l.rpc.1 less
  intro c other
  rw [of_other (Ne.symm other), moves.2 c (Ne.symm other)]

theorem Live.moves (lawful : tk.Lawful) (started : Started start)
    (registered : start.objects.services = services) (live : Live services start hist h) {c : C}
    (unsettled : ¬ ∀ side, Rpc.Settled side (h.links c)) :
    ∃ l h', Step h l h' ∧ Orderly services hist h l ∧ l.Advances := by
  have link := live.link lawful started registered c
  have orderly {l : Label types C} (peaceful : Rpc.Peaceful (of l.rpc.1 hist)
      (h.links l.rpc.1) l.rpc.2) (advances : l.Advances) : Orderly services hist h l := by
    refine ⟨peaceful, ?_, ?_⟩
    · rintro c serial q rfl
      contradiction
    · rintro c i serial result rfl
      contradiction
  by_cases busy : ((h.links c).current .accepting).isSome
  · -- the services handle what they were given
    obtain ⟨⟨asked, payload⟩, busy⟩ := Option.isSome_iff_exists.mp busy
    have member := Rpc.current_requested lawful (started.links c) link.run busy
    have asks := Rpc.requested_asks lawful link.run .connecting payload member
    obtain ⟨_, handles⟩ := Rpc.handle_asks asks (.error [])
    obtain ⟨outcome, results, handles⟩ := results_exist h.objects h.world handles
    have fits := live.answerable c payload member _ _ _
      (holds_run started registered live.run) results asked
    obtain ⟨socket, next, moved, -⟩ := Rpc.send_step (frame (answerPayload asked outcome))
      fun _ => (live.registered c .accepting).2
    refine ⟨_, _, .handle rfl results (.answer busy handles moved), orderly ?_ trivial, trivial⟩
    refine link.peaceful lawful (started.links c) fun x same => ?_
    cases same
    exact ⟨_, rfl, fits⟩
  · obtain ⟨l, k', step, peaceful, advances⟩ := link.moves lawful (started.links c) unsettled
    have other : ¬ Own l := by
      intro own
      cases step with
      | @answer _ side _ _ _ _ _ asked =>
        cases side with
        | accepting => exact busy (by simp [asked])
        | connecting => exact own
      | invoke | release | wait => contradiction
      | event | dispatch | lost => exact own
    exact ⟨_, _, .pass other step, orderly peaceful advances, advances⟩

theorem token_entry (started : Started start) (run : Guarded Step (Orderly services) start hist h)
    (c : C) : ∀ serial ty, (serial, ty) ∈ h.tokens c →
      ((h.links c).requests .connecting serial).isSome := by
  refine run.history (P := fun _ h => ∀ serial ty, (serial, ty) ∈ h.tokens c →
    ((h.links c).requests .connecting serial).isSome) ?_ ?_
  · intro past h l h' before step _ serial ty member
    have kept (old : (serial, ty) ∈ h.tokens c) :
        ((h'.links c).requests .connecting serial).isSome := by
      by_cases here : l.rpc.1 = c
      · subst here
        exact Rpc.entry_kept step.rpc.1 (before serial ty old)
      · rw [step.rpc.2 c here]
        exact before serial ty old
    cases step with
    | @call c' serial' q k moved =>
      by_cases here : c' = c
      · subst here
        simp only [Function.update_self] at member kept ⊢
        rcases List.mem_append.mp member with old | new
        · exact kept old
        · obtain ⟨rfl, rfl⟩ := Prod.mk.inj (List.mem_singleton.mp new)
          rw [Rpc.invoked_entry moved]
          rfl
      · refine kept ?_
        simpa only [Function.update_of_ne (Ne.symm here)] using member
    | «return» | handle | pass => exact kept member
  · simp [started.tokens c]

theorem took_called {c : C} {i : Nat} {q : ProxyCall types} {outcome : Outcome tk}
    (member : .took (c, i) q outcome ∈ translate mark hist) : (calls c hist)[i]? = some q := by
  obtain ⟨past, l, here, gives⟩ := translate_mem member
  cases l with
  | called | returned | passed => simp [mark] at gives
  | handled c' asked payload outcome' serial =>
    simp only [mark, Option.ite_none_right_eq_some, Option.map_eq_some_iff,
      Linearization.Mark.took.injEq, Prod.mk.injEq] at gives
    obtain ⟨invokes, q', made, ⟨rfl, rfl⟩, rfl, -⟩ := gives
    obtain ⟨rest, whole⟩ := calls_prefix c' ((List.prefix_append _ _).trans here)
    rw [← whole, List.getElem?_append_left (List.getElem?_eq_some_iff.mp made).1, made]

theorem Live.completed (lawful : tk.Lawful) (started : Started start)
    (registered : start.objects.services = services) (live : Live services start hist h)
    (settled : ∀ c side, Rpc.Settled side (h.links c)) : Completed hist h := by
  intro c i q made
  obtain ⟨count, tokens⟩ := tokens_run started live.run c
  obtain ⟨⟨serial, ty⟩, token⟩ : ∃ token, (h.tokens c)[i]? = some token := by
    refine ⟨_, List.getElem?_eq_getElem ?_⟩
    rw [count]
    exact (List.getElem?_eq_some_iff.mp made).1
  have entry := token_entry started live.run c serial ty (List.mem_of_getElem? token)
  obtain ⟨p, entry⟩ := Option.isSome_iff_exists.mp entry
  have link := live.link lawful started registered c
  have finished := (link.atRest lawful (started.links c) (settled c)).finished _ _ _ entry
  have few := Rpc.sent_le lawful (started.links c) link.run .connecting
  have bound := live.few c
  obtain ⟨q', took⟩ := returned_took lawful started registered live.run token entry finished
    fun before serial' q' _ _ => by omega
  obtain rfl : q' = q := Option.some.inj ((took_called took).symm.trans made)
  obtain ⟨before, q, here, number, rfl⟩ := tokens i serial ty token
  obtain rfl : q = q' := by
    have placed := History.output_at here (f := Label.call c) (x := q) (by simp [Label.call])
    rw [← calls, ← calls, number, made] at placed
    exact (Option.some.inj placed).symm
  exact ⟨serial, p, token, entry, finished, took⟩

theorem addition_answerable (n : UInt32) :
    Answerable counting.objects.services (proxyPayload counterId (addition n).2) := by
  intro objects s outcome holds results asked
  have suits : Suits counting.objects.services (addition n) :=
    addition_suits _ ⟨rfl, rfl, rfl, rfl⟩
  have gives : serve counting.objects.services s (addition n) =
      (.ok (Rpc.number (s + n)), s + n) := by
    simp [serve, counting, counterId, addition, counter, add, number, Except.map, Rpc.number]
  have same : outcome = .ok (Rpc.number (s + n)) := by
    have served := served Toolkit.plain_lawful holds suits s results
    rw [gives] at served
    exact congrArg Prod.fst served
  have short : (answerPayload asked (.ok (Rpc.number (s + n)) : Outcome .plain)).length ≤ 1024 :=
    Nat.le_of_ble_eq_true rfl
  rw [same]
  omega

def underWay : List (Event plainTypes Bool) := additions.take 5

end Clientele
open Clientele

/-- Every run of a service process with finitely many clients, all of whose connections are in
the poll: once nobody makes another request, whatever steps are taken come to an end, and not
before every call has taken effect and the `Wait` for it can end with what it came to. -/
theorem calls_complete {tk : Toolkit} {types : IdlTypes tk} {σ C : Type} [DecidableEq C]
    [Fintype C] {start h : Clientele types σ C} {hist : List (Clientele.Label types C)}
    (lawful : tk.Lawful) (started : Clientele.Started start)
    (live : Clientele.Live start.objects.services start hist h) :
    Inevitably Clientele.Step
      (fun past h l => Clientele.Orderly start.objects.services past h l ∧ l.Advances)
      Clientele.Completed hist h := by
  refine Inevitably.of_measure (WellFounded.prod_lex wellFounded_lt wellFounded_lt)
    Clientele.rest (I := Clientele.Live start.objects.services start) ?_ ?_ ?_ live
  · exact fun live step met => live.next lawful started rfl step met.1 met.2
  · exact fun live step met =>
      Clientele.rest_lessens lawful started rfl live step met.1 met.2
  · intro past h live incomplete
    obtain ⟨c, unsettled⟩ : ∃ c, ¬ ∀ side, Rpc.Settled side (h.links c) := by
      by_contra settled
      rw [not_exists] at settled
      exact incomplete (live.completed lawful started rfl fun c => not_not.mp (settled c))
    exact live.moves lawful started rfl unsettled

theorem calls_complete_counter :
    ∃ (hist : List (Clientele.Label plainTypes Bool)) (h : Clientele plainTypes UInt32 Bool),
      Clientele.Live Clientele.counting.objects.services Clientele.counting hist h ∧
      (∀ c, (Clientele.calls c hist).length = 1) ∧ Clientele.taken hist = [] ∧
      Inevitably Clientele.Step
        (fun past h l => Clientele.Orderly Clientele.counting.objects.services past h l ∧
          l.Advances) Clientele.Completed hist h := by
  let past := (play perform (Brief Addition) [] counting underWay).1
  let last := (play perform (Brief Addition) [] counting underWay).2
  have live : Clientele.Live counting.objects.services counting past last := by
    constructor
    case run => exact played addition_suits counting underWay
    case registered =>
      intro c
      cases c <;> exact Rpc.both (by decide +kernel) (by decide +kernel)
    case few =>
      intro c
      cases c <;> decide +kernel
    case answerable =>
      intro c payload member
      have asked : Rpc.requested .connecting (of c past) =
          [proxyPayload counterId (addition (bif c then 7 else 5)).2] := by
        cases c <;> decide +kernel
      rw [asked, List.mem_singleton] at member
      exact member ▸ addition_answerable _
    case replies =>
      intro c payload member
      have none : Rpc.requested .accepting (of c past) = [] := by cases c <;> decide +kernel
      rw [none] at member
      contradiction
  exact ⟨past, last, live, fun c => by cases c <;> decide +kernel, by decide +kernel,
    calls_complete Toolkit.plain_lawful counting_started live⟩

end PBus
