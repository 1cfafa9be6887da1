import PBus.Foundation.Inevitable
import PBus.Session.Progress

/-! Two sessions that make no more requests come to rest, whatever order the events come in,
with every request handled and every response stored. -/
namespace PBus
open Transition Connection Session

namespace Rpc
variable {tk : Toolkit}

theorem onIncomingData_asks {k : Rpc tk} {side : Side} {d : Dispatch UInt8}
    (wants : asks tk d.payload = true) :
    (onIncomingData k side d).current side = some (d.serial, d.payload) := by
  unfold asks at wants
  unfold onIncomingData
  split <;> rename_i read <;> simp_all

/-- A frame that asks for an answer is in hand, or was answered under its serial. -/
theorem asked_answered {start k : Rpc tk} {hist : List (Label tk)} (started : Started start)
    (run : Guarded Step Peaceful start hist k) (side : Side) :
    ∀ f ∈ received side hist, asks tk (f.2.drop 4) = true →
      (∃ outcome serial, .answered side f.1 (f.2.drop 4) outcome serial ∈ hist) ∨
        k.current side = some (f.1, f.2.drop 4) := by
  have both : Guarded Step Peaceful start hist k ∧
      ∀ f ∈ received side hist, asks tk (f.2.drop 4) = true →
        (∃ outcome serial, .answered side f.1 (f.2.drop 4) outcome serial ∈ hist) ∨
          k.current side = some (f.1, f.2.drop 4) := by
    refine run.history (P := fun hist k => Guarded Step Peaceful start hist k ∧
      ∀ f ∈ received side hist, asks tk (f.2.drop 4) = true →
        (∃ outcome serial, .answered side f.1 (f.2.drop 4) outcome serial ∈ hist) ∨
          k.current side = some (f.1, f.2.drop 4)) ?_ ⟨.start, fun f member => by contradiction⟩
    rintro past k l k' ⟨run, before⟩ step peaceful
    refine ⟨run.next step peaceful, ?_⟩
    have old {f : UInt32 × List UInt8} (member : f ∈ received side past)
        (wants : asks tk (f.2.drop 4) = true)
        (kept : k.current side = some (f.1, f.2.drop 4) →
          (∃ outcome serial, l = .answered side f.1 (f.2.drop 4) outcome serial) ∨
            k'.current side = some (f.1, f.2.drop 4)) :
        (∃ outcome serial, .answered side f.1 (f.2.drop 4) outcome serial ∈ past ++ [l]) ∨
          k'.current side = some (f.1, f.2.drop 4) := by
      rcases before f member wants with ⟨outcome, serial, here⟩ | busy
      · exact .inl ⟨outcome, serial, List.mem_append_left _ here⟩
      · rcases kept busy with ⟨outcome, serial, rfl⟩ | busy
        · exact .inl ⟨outcome, serial, List.mem_append_right _ List.mem_cons_self⟩
        · exact .inr busy
    cases step with
    | invoke side' | release side' =>
      rw [received_quiet side past fun x link _ => by cases link; rfl]
      exact fun f member wants => old member wants .inr
    | event moved silent quiet =>
      rw [received_quiet side past fun x link _ => by cases link; exact quiet]
      exact fun f member wants => old member wants .inr
    | wait =>
      rw [received_quiet side past fun x link _ => by cases link]
      exact fun f member wants => old member wants .inr
    | @dispatch link side' l d moved gives idle =>
      by_cases here : side' = side
      · subst here
        rw [received_dispatch side' past rfl gives]
        intro f member wants
        rcases List.mem_append.mp member with member | new
        · exact old member wants fun busy => by rw [idle] at busy; contradiction
        · obtain rfl := List.mem_singleton.mp new
          rw [← d.payload_eq] at wants ⊢
          exact .inr (onIncomingData_asks wants)
      · rw [received_quiet side past fun x link this => by cases link; exact absurd this here]
        refine fun f member wants => old member wants fun busy => .inr ?_
        rcases onIncomingData_current { k with link } side' d with same | update
        · rwa [same]
        · rwa [update, Function.update_of_ne (Ne.symm here)]
    | @answer link side' asked serial payload result outcome busy handles moved =>
      rw [received_quiet side past fun x link _ => by cases link; rfl]
      intro f member wants
      refine old member wants fun same => ?_
      by_cases here : side' = side
      · subst here
        rw [busy, Option.some.injEq, Prod.mk.injEq] at same
        obtain ⟨rfl, rfl⟩ := same
        exact .inl ⟨outcome, serial, rfl⟩
      · exact .inr (by simpa [Function.update_of_ne (Ne.symm here)] using same)
    | @lost link side' data busy moved =>
      have registered := current_registered started run side' busy
      exact absurd rfl ((registered_step (link_step moved).1 (by simp) registered).1 data)
  exact both.2

theorem respond_unfinished {requests : Requests tk} {data : List UInt8}
    {read : ResponseParser tk → Nat → Except Str (ResponseParser tk)}
    (reads : ∀ p offset p', read p offset = .ok p' → p'.finished = true)
    (entry : respond requests data read n = some p) (unfinished : p.finished = false) :
    requests n = some p ∧ (responseSerial tk data).toOption.map Prod.fst ≠ some n := by
  unfold respond at entry
  cases serial : responseSerial tk data with
  | error text => exact ⟨by simpa [serial] using entry, by simp [Except.toOption]⟩
  | ok pair =>
    obtain ⟨asked, offset⟩ := pair
    cases found : requests asked with
    | none =>
      simp only [serial, found] at entry
      refine ⟨entry, ?_⟩
      rintro same
      obtain rfl : asked = n := by simpa [Except.toOption] using same
      rw [found] at entry
      contradiction
    | some old =>
      simp only [serial, found, Function.update_apply] at entry
      split at entry
      · -- the parser that was found is finished by what it was given
        cases result : read old offset with
        | ok p' =>
          obtain rfl : p' = p := by simpa [result] using entry
          rw [reads old offset p' result] at unfinished
          contradiction
        | error text =>
          obtain rfl : old.setException text = p := by simpa [result] using entry
          contradiction
      · rename_i apart
        exact ⟨entry, by simpa [Except.toOption] using Ne.symm apart⟩

theorem onIncomingData_unfinished {k : Rpc tk} {side c : Side} {d : Dispatch UInt8}
    (entry : (onIncomingData k side d).requests c n = some p) (unfinished : p.finished = false) :
    k.requests c n = some p ∧ (c = side → answered tk d.payload ≠ some n) := by
  unfold onIncomingData at entry
  unfold answered
  by_cases here : c = side
  swap
  · refine ⟨?_, fun same => absurd same here⟩
    split at entry <;> simpa [here] using entry
  subst here
  split at entry <;> rename_i data read
  · -- an exception
    simp only [Function.update_self] at entry
    obtain ⟨same, other⟩ := respond_unfinished (fun p offset p' done => by
      cases text : readException tk data offset with
      | error message => simp [text] at done
      | ok message =>
        obtain rfl : p.setException message = p' := by simpa [text] using done
        rfl) entry unfinished
    exact ⟨same, fun _ => by simpa [read] using other⟩
  · simp only [Function.update_self] at entry
    obtain ⟨same, other⟩ := respond_unfinished
      (fun p offset p' done => (parse_keeps done).2.1) entry unfinished
    exact ⟨same, fun _ => by simpa [read] using other⟩
  · exact ⟨entry, fun _ => by simp [read]⟩
  · exact ⟨entry, fun _ => by simp [read]⟩

theorem answered_sent {start k : Rpc tk} {hist : List (Label tk)} (lawful : tk.Lawful)
    (started : Started start) (run : Guarded Step Peaceful start hist k) {side : Side}
    {f : UInt32 × List UInt8} (given : f ∈ received side hist)
    (response : answered tk (f.2.drop 4) = some n) :
    ∃ j, j < (sent side hist).length ∧ n = UInt32.ofNat j := by
  obtain ⟨m, here⟩ := List.mem_iff_getElem?.mp given
  rw [← Side.other_other side] at here
  obtain ⟨-, carried⟩ := received_at started run here
  have readable (text : Str) : request tk (f.2.drop 4) ≠ .error text := by
    intro error
    simp [answered, error] at response
  have answers (rest : List UInt8) : request tk (f.2.drop 4) ≠ .ok (.invoke rest) := by
    intro invoke
    simp [answered, invoke] at response
  obtain ⟨before, asked, payload, outcome, serial, position, -, answer⟩ :=
    response_answered lawful run carried answers readable
  obtain ⟨j, data, -, number, sent', -⟩ := answered_for started run position
  have within : j < (sent side before).length := (List.getElem?_eq_some_iff.mp sent').1
  have shorter := (sent_initial side ((List.prefix_append _ _).trans position)).length_le
  refine ⟨j, Nat.lt_of_lt_of_le within shorter, ?_⟩
  obtain rfl : asked = n := by
    rw [answer] at response
    cases outcome with
    | ok result => simpa [answerPayload, answered_result lawful] using response
    | error text => simpa [answerPayload, answered_exception lawful] using response
  exact number

theorem unfinished_unanswered {start k : Rpc tk} {hist : List (Label tk)} (lawful : tk.Lawful)
    (started : Started start) (run : Guarded Step Peaceful start hist k)
    (few : ∀ side, (sent side hist).length ≤ 2 ^ 32) :
    ∀ side n p, k.requests side n = some p → p.finished = false →
      ∀ f ∈ received side hist, answered tk (f.2.drop 4) ≠ some n := by
  have both : Guarded Step Peaceful start hist k ∧
      ((∀ side, (sent side hist).length ≤ 2 ^ 32) →
      ∀ side n p, k.requests side n = some p → p.finished = false →
        ∀ f ∈ received side hist, answered tk (f.2.drop 4) ≠ some n) := by
    refine run.history (P := fun hist k => Guarded Step Peaceful start hist k ∧
      ((∀ side, (sent side hist).length ≤ 2 ^ 32) →
      ∀ side n p, k.requests side n = some p → p.finished = false →
        ∀ f ∈ received side hist, answered tk (f.2.drop 4) ≠ some n)) ?_ ⟨.start, ?_⟩
    · rintro past k l k' ⟨run, before⟩ step peaceful
      refine ⟨run.next step peaceful, fun few => ?_⟩
      have fewBefore (side : Side) : (sent side past).length ≤ 2 ^ 32 :=
        Nat.le_trans (sent_initial side (List.prefix_append _ _)).length_le (few side)
      have before := before fewBefore
      have quiet (unread : ∀ side, received side (past ++ [l]) = received side past)
          (same : k'.requests = k.requests) :
          ∀ side n p, k'.requests side n = some p → p.finished = false →
            ∀ f ∈ received side (past ++ [l]), answered tk (f.2.drop 4) ≠ some n := by
        rw [same]
        intro side n p
        rw [unread]
        exact before side n p
      have run' := run.next step peaceful
      cases step with
      | invoke side' serial ty o method args moved =>
        intro side n p entry unfinished f given response
        rw [received_quiet side past fun x link _ => by cases link; rfl] at given
        by_cases new : side = side' ∧ n = serial
        · -- the serial is new
          obtain ⟨rfl, rfl⟩ := new
          obtain ⟨j, within, number⟩ := answered_sent lawful started run given response
          have fresh := serial_eq started run' (List.prefix_refl _) rfl
          have bound := few side
          rw [sent_append, Label.sent_link side rfl, List.length_append,
            List.length_singleton] at bound
          have same := same_number (number.symm.trans fresh) (by omega) (by omega)
          exact absurd same (Nat.ne_of_lt within)
        · refine before side n p ?_ unfinished f given response
          by_cases own : side = side'
          · subst own
            simp only [Function.update_self] at entry
            rwa [Function.update_of_ne fun same => new ⟨rfl, same⟩] at entry
          · simpa only [Function.update_of_ne own] using entry
      | release => exact quiet (fun side => received_quiet side past fun x link _ => by
          cases link; rfl) rfl
      | event moved silent unread => exact quiet (fun side => received_quiet side past
          fun x link _ => by cases link; exact unread) rfl
      | answer => exact quiet (fun side => received_quiet side past fun x link _ => by
          cases link; rfl) rfl
      | lost => exact quiet (fun side => received_quiet side past fun x link _ => by
          cases link; rfl) rfl
      | wait => exact quiet (fun side => received_quiet side past fun x link _ => by
          cases link) rfl
      | @dispatch link side' l d moved gives idle =>
        intro side n p entry unfinished f given response
        obtain ⟨same, other⟩ := onIncomingData_unfinished entry unfinished
        by_cases here : side' = side
        · subst here
          rw [received_dispatch side' past rfl gives] at given
          rcases List.mem_append.mp given with old | new
          · exact before side' n p same unfinished f old response
          · obtain rfl := List.mem_singleton.mp new
            rw [← d.payload_eq] at response
            exact other rfl response
        · rw [received_quiet side past fun x link this => by
            cases link; exact absurd this here] at given
          exact before side n p same unfinished f given response
    · obtain ⟨link, _⟩ := started
      exact fun _ side n p entry => by contradiction
  exact both.2 few

theorem settled_received {start k : Rpc tk} {hist : List (Label tk)} (started : Started start)
    (run : Guarded Step Peaceful start hist k) {side : Side} (settled : Settled side k) :
    received side.other hist = numbered (sent side hist) := by
  have calm := link_run run
  obtain ⟨fresh, joined⟩ := started
  obtain ⟨us, inOrder, -, all⟩ := Link.handed_sent joined calm.reaches calm.labels side
  rw [received, inOrder, all settled.1, sent_eq]

/-- Where all frames have been handed over and the other side handles none, nobody waits in vain. -/
theorem Live.finished {start k : Rpc tk} {past : List (Label tk)} (lawful : tk.Lawful)
    (started : Started start) (live : Live start past k)
    (all : ∀ side, received (Side.other side) past = numbered (sent side past)) {side : Side}
    (idle : k.current side.other = none) {n : UInt32} {p : ResponseParser tk}
    (entry : k.requests side n = some p) : p.finished = true := by
  by_contra unfinished
  rw [Bool.not_eq_true] at unfinished
  have few (side : Side) : (sent side past).length ≤ 2 ^ 32 :=
    Nat.le_trans (sent_le lawful started live.run side) (Nat.le_of_lt live.few)
  have unanswered := unfinished_unanswered lawful started live.run few side n p entry unfinished
  obtain ⟨before, payload, request⟩ := table_run lawful started live.run side n p entry
  -- the request was handed over on the other side
  have asked : (n, frame payload) ∈ received side.other past := by
    rw [all side]
    have here := History.output_at request.asked (Label.sent_link side rfl)
    rw [serial_eq started live.run request.asked rfl]
    refine List.mem_iff_getElem?.mpr ⟨(sent side before).length, ?_⟩
    simpa [numbered, numberedFrom, sent] using here
  have wants : asks tk payload = true := by
    obtain ⟨u, v, -, step, -⟩ := live.run.at_label request.asked
    cases step with
    | invoke => exact asks_invoke lawful _ _ _
  -- so it was answered
  rcases asked_answered started live.run side.other _ asked wants with
    ⟨outcome, serial, answered⟩ | busy
  swap
  · rw [idle] at busy
    contradiction
  -- and the answer was handed over
  have given : ∃ f ∈ received side past, f.2.drop 4 = answerPayload n outcome := by
    have sent' : frame (answerPayload n outcome) ∈ sent side.other past := by
      refine List.mem_flatMap.mpr ⟨_, answered, ?_⟩
      simp [Label.sent, Label.link, Link.of, sentFrames, Connection.Label.sentData]
    have all := all side.other
    rw [Side.other_other] at all
    rw [← numberedFrom_frames 0 (sent side.other past)] at sent'
    obtain ⟨f, member, same⟩ := List.mem_map.mp sent'
    exact ⟨f, all ▸ member, by rw [same, frame_drop]⟩
  obtain ⟨f, member, same⟩ := given
  refine unanswered f member ?_
  rw [same]
  cases outcome with
  | ok result => exact answered_result lawful _ _
  | error text => exact answered_exception lawful _ _

theorem Live.atRest {start k : Rpc tk} {past : List (Label tk)} (lawful : tk.Lawful)
    (started : Started start) (live : Live start past k) (settled : ∀ side, Settled side k) :
    AtRest past k where
  handled side := (handled_requested lawful started live.run side).2 (settled side)
  finished side _ _ entry :=
    live.finished lawful started (fun side => settled_received started live.run (settled side))
      (settled side).2 entry

theorem call_answerable : Answerable .plain call := by
  intro asked
  refine ⟨_, _, call_handled, ?_⟩
  exact (short_fits (number_short asked)).1

/-- One call is on its way, the other is being handled. -/
def crossing : List (Event .plain) :=
  [.invoke .connecting true target ['m'] [], .invoke .accepting true target ['m'] [],
    .move .connecting (.output 99), .move .accepting (.output 3),
    .move .accepting (.input (frame call))]

end Rpc
open Rpc

/-- Every run of two sessions whose connections are in the poll and that have made fewer than
2^32 requests in all: once nobody makes another, whatever steps are taken come to an end, and
not before every request has been handled and every response stored for whoever waits. -/
theorem sessions_come_to_rest {tk : Toolkit} {start k : Rpc tk} {hist : List (Rpc.Label tk)}
    (lawful : tk.Lawful) (started : Rpc.Started start) (live : Rpc.Live start hist k) :
    Inevitably Rpc.Step (fun past k l => Rpc.Peaceful past k l ∧ l.Advances) Rpc.AtRest hist k := by
  refine Inevitably.of_measure (WellFounded.prod_lex wellFounded_lt wellFounded_lt) Rpc.rest
    (I := Rpc.Live start) ?_ ?_ ?_ live
  · exact fun live step met => live.next step met.1 met.2
  · exact fun live step met => rest_lessens lawful started live step met.1 met.2
  · intro past k live unrested
    refine live.moves lawful started fun settled => ?_
    exact unrested (live.atRest lawful started settled)

theorem sessions_come_to_rest_crossing :
    ∃ (hist : List (Rpc.Label .plain)) (k : Rpc .plain), Rpc.Live Rpc.fresh hist k ∧
      Rpc.made hist = 2 ∧ Rpc.served hist = 0 ∧ (k.current .accepting).isSome ∧
      Inevitably Rpc.Step (fun past k l => Rpc.Peaceful past k l ∧ l.Advances) Rpc.AtRest
        hist k := by
  let past := (play Rpc.perform Rpc.Brief [] Rpc.fresh Rpc.crossing).1
  have asked : ∀ side, Rpc.requested side past = [Rpc.call] :=
    both (by decide +kernel) (by decide +kernel)
  have live : Rpc.Live Rpc.fresh past (play Rpc.perform Rpc.Brief [] Rpc.fresh Rpc.crossing).2 := by
    constructor
    case run => exact Rpc.played Rpc.fresh Rpc.crossing
    case registered => exact both (by decide +kernel) (by decide +kernel)
    case few => decide +kernel
    case answerable =>
      intro side payload member
      rw [asked, List.mem_singleton] at member
      exact member ▸ call_answerable
  exact ⟨past, _, live, by decide +kernel, by decide +kernel, by decide +kernel,
    sessions_come_to_rest Toolkit.plain_lawful Rpc.started live⟩

end PBus
