import PBus.Foundation.History
import PBus.Session.Rpc

/-! Requests and answers. A request carries no serial: both sides count the frames of each
direction. The invariant says which request the parser in each place of `_requests` is for,
and that what is stored in it is the answer to that request, as long as the serial has not
come round again. -/
namespace PBus
open Transition Connection Session

namespace Rpc
variable {tk : Toolkit}

/-- Both sessions before anything was sent. -/
inductive Started : Rpc tk → Prop where
  | joined (link : Link) : Link.Started link → Started { link }

def links (hist : List (Label tk)) : List (Side × Connection.Label UInt8) :=
  hist.flatMap fun l => l.link.toList

def Label.sent (side : Side) (l : Label tk) : List (List UInt8) :=
  sentFrames (Link.of side l.link.toList)

def sent (side : Side) (hist : List (Label tk)) : List (List UInt8) :=
  hist.flatMap (Label.sent side)

def received (side : Side) (hist : List (Label tk)) : List (UInt32 × List UInt8) :=
  handed (Link.of side (links hist))

/-- If the next frame handed to `side` is an answer, `side` has sent fewer than 2^32 frames
since the request. -/
def Prompt (past : List (Label tk)) (side : Side) : Prop :=
  ∀ before asked payload outcome serial,
    before ++ [.answered side.other asked payload outcome serial] <+: past →
    (sent side.other before).length = (received side past).length →
    (sent side past).length < (received side.other before).length + 2 ^ 32

/-- The connection is never hung up, input is not nested, payloads are shorter than 2^32
bytes, and fewer than 2^32 frames separate a request from its answer. -/
def Peaceful (past : List (Label tk)) (_k : Rpc tk) (l : Label tk) : Prop :=
  (∀ x ∈ l.link, Link.Calm x) ∧
    ∀ side act, l = .moved side act → act.dispatched ≠ [] → Prompt past side

/-- `Wait` ended as the outcome of a request for a value of type `ty` says; nothing is said of
a value of another type. -/
def Returns (ty : tk.Ty) (outcome : Outcome tk) : Waited tk → Prop
  | .value ty' value => ty' = ty ∧ ∃ r, outcome = .ok r ∧ (r.1 = ty' → r = ⟨ty', value⟩)
  | .rethrown text => outcome = .error text ∨ ∃ r, outcome = .ok r ∧ r.1 ≠ ty
  | .mismatched => True

/-- The other side handled the frame with the number of the request that `side` made at
`before`, and `Wait` ended as the outcome says. -/
def Answers (past : List (Label tk)) (side : Side) (before : List (Label tk)) (ty : tk.Ty)
    (payload : List UInt8) (result : Waited tk) : Prop :=
  ∃ handling asked outcome answer,
    handling ++ [.answered side.other asked payload outcome answer] <+: past ∧
    (received side.other handling).length = (sent side before).length + 1 ∧
    Returns ty outcome result

/-- What `Wait` gives for `serial` answers each request for which `Invoke` returned `serial`
and since which fewer than 2^32 frames were sent. -/
def Correlated (past : List (Label tk)) : Label tk → Prop
  | .waited side serial result => ∀ before ty payload,
      before ++ [.invoked side serial ty payload] <+: past →
      (sent side past).length ≤ (sent side before).length + 2 ^ 32 →
      Answers past side before ty payload result
  | _ => True

theorem sent_eq (side : Side) (hist : List (Label tk)) :
    sent side hist = sentFrames (Link.of side (links hist)) := by
  simp only [links, sentFrames, Link.of]
  rw [List.filterMap_flatMap, List.flatMap_assoc]
  rfl

theorem links_append (past : List (Label tk)) (l : Label tk) :
    links (past ++ [l]) = links past ++ l.link.toList := by simp [links]

theorem Label.sent_link {l : Label tk} (side : Side) {data : List UInt8} {serial : UInt32}
    (link : l.link = some (side, .sent serial data)) : l.sent side = [data] := by
  simp [Label.sent, link, Link.of, sentFrames, Label.sentData]

theorem Label.sent_single (side : Side) (l : Label tk) : (l.sent side).length ≤ 1 := by
  cases link : l.link with
  | none => simp [Label.sent, link, Link.of, sentFrames]
  | some x =>
    obtain ⟨side', act⟩ := x
    simp only [Label.sent, link, Link.of, sentFrames, Option.toList_some, List.filterMap_cons,
      List.filterMap_nil]
    split <;> rename_i here
    · simp
    · split at here <;> simp_all
      subst here
      cases act <;> simp [Label.sentData]

@[simp] theorem onIncomingData_link (k : Rpc tk) (side : Side) (d : Dispatch UInt8) :
    (onIncomingData k side d).link = k.link := by
  unfold onIncomingData
  split <;> rfl

theorem onIncomingData_current (k : Rpc tk) (side : Side) (d : Dispatch UInt8) :
    (onIncomingData k side d).current = k.current ∨ (onIncomingData k side d).current =
      Function.update k.current side (some (d.serial, d.payload)) := by
  unfold onIncomingData
  split <;> simp

theorem link_run {start k : Rpc tk} {hist : List (Label tk)}
    (run : Guarded Step Peaceful start hist k) :
    Guarded Link.Step (fun _ _ => Link.Calm) start.link (links hist) k.link := by
  refine run.history (P := fun hist k =>
    Guarded Link.Step (fun _ _ => Link.Calm) start.link (links hist) k.link) ?_ .start
  intro past k l k' before step peaceful
  rw [links_append]
  have calm := peaceful.1
  cases step with
  | invoke _ _ _ _ _ _ moved | release _ _ _ moved | answer _ _ moved | lost _ moved
  | event moved => exact .next before moved (calm _ rfl)
  | dispatch moved =>
    rw [onIncomingData_link]
    exact .next before moved (calm _ rfl)
  | wait => simpa [Label.link] using before

theorem received_append (side : Side) (past : List (Label tk)) (l : Label tk) :
    received side (past ++ [l]) = received side past ++ handed (Link.of side l.link.toList) := by
  simp [received, links_append, Link.of, handed]

theorem sent_append (side : Side) (past : List (Label tk)) (l : Label tk) :
    sent side (past ++ [l]) = sent side past ++ l.sent side := by simp [sent]

theorem received_quiet (side : Side) (past : List (Label tk)) {l : Label tk}
    (quiet : ∀ x ∈ l.link, x.1 = side → x.2.dispatched = []) :
    received side (past ++ [l]) = received side past := by
  rw [received_append]
  cases link : l.link with
  | none => simp [Link.of, handed]
  | some x =>
    by_cases here : x.1 = side
    · simp [Link.of, handed, here, quiet x link here]
    · simp [Link.of, handed, here]

theorem received_dispatch (side : Side) (past : List (Label tk)) {l : Label tk}
    {act : Connection.Label UInt8} {d : Dispatch UInt8} (link : l.link = some (side, act))
    (gives : act.dispatched = [d]) :
    received side (past ++ [l]) = received side past ++ [(d.serial, d.frame)] := by
  simp [received_append, link, Link.of, handed, gives]

/-- `Send` returns the number of the frame, modulo 2^32. -/
theorem serial_eq {start k : Rpc tk} {hist before : List (Label tk)} {l : Label tk}
    (started : Started start) (run : Guarded Step Peaceful start hist k)
    (here : before ++ [l] <+: hist) (link : l.link = some (side, .sent serial data)) :
    serial = UInt32.ofNat (sent side before).length := by
  obtain ⟨u, v, past, step, peaceful⟩ := run.at_label here
  obtain ⟨fresh, joined⟩ := started
  have flow := Outflow.run (joined.ends side)
    (Link.end_run (link_run (.next past step peaceful)).reaches side)
  have calls := flow.serials
  rw [← sent_eq, sent_append, l.sent_link side link, numbered_concat, links_append, link,
    Option.toList_some, Link.of_append, if_pos rfl, sends, List.flatMap_append] at calls
  exact (Prod.mk.inj (List.singleton_inj.mp (List.append_inj' calls rfl).2)).1

theorem received_sent {start k : Rpc tk} {hist : List (Label tk)} (started : Started start)
    (run : Guarded Step Peaceful start hist k) (side : Side) :
    ∃ us, received side.other hist = numbered us ∧ us <+: sent side hist := by
  obtain ⟨fresh, joined⟩ := started
  have run := link_run run
  obtain ⟨us, inOrder, first, _⟩ := Link.handed_sent joined run.reaches run.labels side
  exact ⟨us, inOrder, sent_eq side hist ▸ first⟩

theorem received_at {start k : Rpc tk} {hist : List (Label tk)} {m : Nat} {data : List UInt8}
    (started : Started start) (run : Guarded Step Peaceful start hist k)
    (given : (received side.other hist)[m]? = some (serial, data)) :
    serial = UInt32.ofNat m ∧ (sent side hist)[m]? = some data := by
  obtain ⟨us, inOrder, rest, same⟩ := received_sent started run side
  rw [inOrder] at given
  simp only [numbered, numberedFrom, List.getElem?_mapIdx, Option.map_eq_some_iff, Prod.mk.injEq,
    UInt32.zero_add] at given
  obtain ⟨u, here, rfl, rfl⟩ := given
  refine ⟨rfl, ?_⟩
  rw [← same, List.getElem?_append_left (List.getElem?_eq_some_iff.mp here).1, here]

theorem of_update_none {A B : Type} [DecidableEq A] {f : A → Option B} {a a' : A} {b : B}
    (left : Function.update f a none a' = some b) : f a' = some b := by
  by_cases here : a' = a
  · subst here
    rw [Function.update_self] at left
    contradiction
  · rwa [Function.update_of_ne here] at left

theorem current_last {start k : Rpc tk} {hist : List (Label tk)} (started : Started start)
    (run : Guarded Step Peaceful start hist k) {side : Side} {serial : UInt32}
    {payload : List UInt8} (busy : k.current side = some (serial, payload)) :
    ∃ before data, received side hist = before ++ [(serial, data)] ∧ data.drop 4 = payload := by
  refine run.history (P := fun hist k => ∀ side serial payload,
    k.current side = some (serial, payload) → ∃ before data,
      received side hist = before ++ [(serial, data)] ∧ data.drop 4 = payload) ?_ ?_ _ _ _ busy
  · clear busy side serial payload
    intro past k l k' before step _ side serial payload busy
    cases step with
    | invoke side' | release side' =>
      rw [received_quiet side past fun x link _ => by cases link; rfl]
      exact before side serial payload busy
    | event moved _ quiet =>
      rw [received_quiet side past fun x link _ => by cases link; exact quiet]
      exact before side serial payload busy
    | @dispatch _ side' l d moved gives idle =>
      by_cases here : side' = side
      · subst here
        rw [received_dispatch side' past rfl gives]
        rcases onIncomingData_current _ side' d with same | busy'
        · rw [same] at busy
          rw [idle] at busy
          contradiction
        · simp only [busy', Function.update_self, Option.some.injEq, Prod.mk.injEq] at busy
          obtain ⟨rfl, rfl⟩ := busy
          exact ⟨_, _, rfl, (Dispatch.payload_eq d).symm⟩
      · rw [received_quiet side past fun x link this => by cases link; exact absurd this here]
        apply before side serial payload
        rcases onIncomingData_current _ side' d with same | busy'
        · rwa [same] at busy
        · rwa [busy', Function.update_of_ne (Ne.symm here)] at busy
    | @answer _ side' _ _ _ _ outcome _ _ moved =>
      rw [received_quiet side past fun x link _ => by cases link; rfl]
      exact before side serial payload (of_update_none busy)
    | @lost _ side' _ _ moved =>
      rw [received_quiet side past fun x link _ => by cases link; rfl]
      exact before side serial payload (of_update_none busy)
    | wait =>
      rw [received_quiet side past fun x link _ => by cases link]
      exact before side serial payload busy
  · obtain ⟨link, _⟩ := started
    intro side serial payload busy
    contradiction

theorem answered_for {start k : Rpc tk} {hist before : List (Label tk)} (started : Started start)
    (run : Guarded Step Peaceful start hist k)
    (here : before ++ [.answered side.other asked payload outcome serial] <+: hist) :
    ∃ j data, (received side.other before).length = j + 1 ∧ asked = UInt32.ofNat j ∧
      (sent side before)[j]? = some data ∧ data.drop 4 = payload := by
  obtain ⟨u, v, past, step, _⟩ := run.at_label here
  cases step with
  | answer busy =>
    obtain ⟨handled, data, last, whole⟩ := current_last started past busy
    have given : (received side.other before)[handled.length]? = some (asked, data) := by
      simp [last]
    obtain ⟨number, frame⟩ := received_at started past given
    exact ⟨handled.length, data, by simp [last], number, frame, whole⟩

theorem response_answered {start k : Rpc tk} {hist : List (Label tk)} {m : Nat}
    (lawful : tk.Lawful) (run : Guarded Step Peaceful start hist k)
    (carried : (sent side hist)[m]? = some data)
    (response : ∀ rest, request tk (data.drop 4) ≠ .ok (.invoke rest))
    (readable : ∀ text, request tk (data.drop 4) ≠ .error text) :
    ∃ before asked payload outcome serial,
      before ++ [.answered side asked payload outcome serial] <+: hist ∧
      (sent side before).length = m ∧ data.drop 4 = answerPayload asked outcome := by
  obtain ⟨before, l, here, number, gives⟩ := History.output_origin (Label.sent_single side) carried
  obtain ⟨u, v, past, step, _⟩ := run.at_label here
  have mine {side' : Side} {act : Connection.Label UInt8} (link : l.link = some (side', act)) :
      side' = side ∧ act.sentData = [data] := by
    by_cases own : side' = side
    · simpa [Label.sent, link, Link.of, sentFrames, own] using gives
    · simp [Label.sent, link, Link.of, sentFrames, own] at gives
  cases step with
  | invoke side' serial ty o method args =>
    obtain ⟨-, rfl⟩ : _ ∧ frame _ = data := by simpa [Label.sentData] using mine rfl
    exact absurd (request_invoke lawful o method args) (response _)
  | release side' serial o =>
    obtain ⟨-, rfl⟩ : _ ∧ frame _ = data := by simpa [Label.sentData] using mine rfl
    exact absurd (request_release lawful o) (readable _)
  | event moved silent =>
    have := (mine rfl).2
    simp [silent] at this
  | @dispatch _ _ act _ moved gives =>
    have := (mine rfl).2
    cases act <;> simp_all [Label.sentData, Label.dispatched]
  | answer busy handles moved =>
    obtain ⟨rfl, rfl⟩ : _ ∧ frame _ = data := by simpa [Label.sentData] using mine rfl
    exact ⟨before, _, _, _, _, here, number, rfl⟩
  | lost => simpa [Label.sentData] using mine rfl
  | wait => simp [Label.sent, Label.link, Link.of, sentFrames] at gives

/-- Whatever type `Wait` asks for, it ends as the outcome says. -/
def Shows (p : ResponseParser tk) (outcome : Outcome tk) : Prop :=
  ∀ ty, Returns p.ty outcome (p.wait ty)

theorem shows_exception (p : ResponseParser tk) (text : Str) :
    Shows (p.setException text) (.error text) := fun _ => .inl rfl

theorem parse_keeps {p p' : ResponseParser tk} (parsed : p.parse data offset = .ok p') :
    p'.ty = p.ty ∧ p'.finished = true ∧ p'.exception = p.exception := by
  cases read : (tk.value p.ty).readAt data offset with
  | error text => simp [ResponseParser.parse, read, bind, Except.bind] at parsed
  | ok pair =>
    simp only [ResponseParser.parse, read, bind, Except.bind, pure, Except.pure,
      Except.ok.injEq] at parsed
    subst parsed
    exact ⟨rfl, rfl, rfl⟩

/-- The value that was sent is the value that is stored, if it has the type of the parser. -/
theorem shows_parsed (lawful : tk.Lawful) {p p' : ResponseParser tk} {ty : tk.Ty}
    {value : tk.Val ty} (unset : p.exception = none)
    (sent : data.drop offset = (tk.value ty).write value) (parsed : p.parse data offset = .ok p') :
    Shows p' (.ok ⟨ty, value⟩) := by
  cases stored : (tk.value p.ty).readAt data offset with
  | error text => simp [ResponseParser.parse, stored, bind, Except.bind] at parsed
  | ok pair =>
    simp only [ResponseParser.parse, stored, bind, Except.bind, pure, Except.pure,
      Except.ok.injEq] at parsed
    subst parsed
    intro ty'
    simp only [ResponseParser.wait, unset]
    split
    · refine ⟨rfl, ⟨ty, value⟩, rfl, ?_⟩
      rintro rfl
      rw [Flat.Codec.readAt_written (lawful.value p.ty) sent] at stored
      cases stored
      rfl
    · trivial

theorem shows_unparsed (lawful : tk.Lawful) {p : ResponseParser tk} {ty : tk.Ty}
    {value : tk.Val ty} (sent : data.drop offset = (tk.value ty).write value)
    (failed : p.parse data offset = .error text) :
    Shows (p.setException text) (.ok ⟨ty, value⟩) := by
  refine fun _ => .inr ⟨_, rfl, fun same => ?_⟩
  obtain rfl : ty = p.ty := same
  rw [ResponseParser.parse, Flat.Codec.readAt_written (lawful.value p.ty) sent] at failed
  contradiction

theorem shows_same {p p' : ResponseParser tk} {outcome : Outcome tk} (type : p'.ty = p.ty)
    (set : p.exception.isSome) (same : p'.exception = p.exception) (shows_ : Shows p outcome) :
    Shows p' outcome := by
  obtain ⟨text, set⟩ := Option.isSome_iff_exists.mp set
  intro ty
  have old := shows_ ty
  simp only [ResponseParser.wait, same, set, type] at old ⊢
  exact old

theorem respond_cases (lawful : tk.Lawful) {requests : Requests tk} {rest : List UInt8}
    {read : ResponseParser tk → Nat → Except Str (ResponseParser tk)}
    (entry : respond requests (tk.u32.write asked ++ rest) read n = some p') :
    requests n = some p' ∨ n = asked ∧ ∃ p, requests n = some p ∧
      (read p (tk.u32.write asked).length = .ok p' ∨
        ∃ text, read p (tk.u32.write asked).length = .error text ∧ p' = p.setException text) := by
  rw [respond, responseSerial_write lawful] at entry
  cases found : requests asked with
  | none => exact .inl (by simpa [found] using entry)
  | some p =>
    simp only [found, Function.update_apply] at entry
    split at entry
    · rename_i here
      subst here
      refine .inr ⟨rfl, p, found, ?_⟩
      cases result : read p (tk.u32.write n).length with
      | ok parser => exact .inl (by simpa [result] using entry)
      | error text => exact .inr ⟨text, rfl, by simpa [result] using entry.symm⟩
    · exact .inl entry

theorem stored {k : Rpc tk} {side c : Side} {d : Dispatch UInt8} {p' : ResponseParser tk}
    (lawful : tk.Lawful) (answer : d.payload = answerPayload asked outcome)
    (entry : (onIncomingData k side d).requests c n = some p') :
    k.requests c n = some p' ∨ c = side ∧ n = asked ∧ ∃ p, k.requests c n = some p ∧
      p'.ty = p.ty ∧ p'.finished = true ∧
      (Shows p' outcome ∨ p.exception.isSome ∧ p'.exception = p.exception) := by
  by_cases here : c = side
  swap
  · -- the table of the other side is not touched
    left
    unfold onIncomingData at entry
    split at entry <;> simpa [here] using entry
  subst here
  cases outcome with
  | error text =>
    rw [answerPayload] at answer
    simp only [onIncomingData, answer, request_exception lawful, Function.update_self,
      onIncomingException] at entry
    rcases respond_cases lawful entry with same | ⟨number, p, found, done | ⟨_, failed, -⟩⟩
    · exact .inl same
    · rw [readException_write lawful] at done
      obtain rfl : p.setException text = p' := Except.ok.inj done
      exact .inr ⟨rfl, number, p, found, rfl, rfl, .inl (shows_exception p text)⟩
    · rw [readException_write lawful] at failed
      contradiction
  | ok result =>
    obtain ⟨ty, value⟩ := result
    rw [answerPayload] at answer
    simp only [onIncomingData, answer, request_result lawful, Function.update_self,
      onIncomingResult] at entry
    have sent : (tk.u32.write asked ++ (tk.value ty).write value).drop
        (tk.u32.write asked).length = (tk.value ty).write value := List.drop_left
    rcases respond_cases lawful entry with same | ⟨number, p, found, done | ⟨text, failed, rfl⟩⟩
    · exact .inl same
    · obtain ⟨type, finished, exception⟩ := parse_keeps done
      refine .inr ⟨rfl, number, p, found, type, finished, ?_⟩
      cases unset : p.exception with
      | none => exact .inl (shows_parsed lawful unset sent done)
      | some text => exact .inr ⟨rfl, exception.trans unset⟩
    · exact .inr ⟨rfl, number, p, found, rfl, rfl, .inl (shows_unparsed lawful sent failed)⟩

/-- The parser `p` is there for the request at `before`, the last for which `Invoke` returned
`n`; and if it is finished and no serial has been used twice since, it shows the outcome of
that request. -/
structure Entry (hist : List (Label tk)) (side : Side) (n : UInt32) (p : ResponseParser tk)
    (before : List (Label tk)) (payload : List UInt8) : Prop where
  asked : before ++ [.invoked side n p.ty payload] <+: hist
  latest : ∀ before' ty' payload', before' ++ [.invoked side n ty' payload'] <+: hist →
    before' <+: before
  finished : p.exception.isSome → p.finished = true
  shown : p.finished = true → (sent side hist).length ≤ (sent side before).length + 2 ^ 32 →
    ∃ handling asked outcome answer,
      handling ++ [.answered side.other asked payload outcome answer] <+: hist ∧
      (received side.other handling).length = (sent side before).length + 1 ∧ Shows p outcome

theorem Entry.later {past : List (Label tk)} {before : List (Label tk)} {p : ResponseParser tk}
    (entry : Entry past side n p before payload) (l : Label tk)
    (other : ∀ ty' payload', l ≠ .invoked side n ty' payload') :
    Entry (past ++ [l]) side n p before payload where
  asked := entry.asked.trans (List.prefix_append _ _)
  latest before' ty' payload' here := by
    rcases List.prefix_concat_iff.mp here with same | earlier
    · exact absurd (List.singleton_inj.mp (List.append_inj' same rfl).2).symm (other ty' payload')
    · exact entry.latest before' ty' payload' earlier
  finished := entry.finished
  shown done few := by
    obtain ⟨handling, asked, outcome, answer, here, rest⟩ := entry.shown done
      (Nat.le_trans (History.count_le _ (List.prefix_append _ _)) few)
    exact ⟨handling, asked, outcome, answer, here.trans (List.prefix_append _ _), rest⟩

theorem Entry.new (past : List (Label tk)) (side : Side) (n : UInt32) (ty : tk.Ty)
    (payload : List UInt8) :
    Entry (past ++ [.invoked side n ty payload]) side n (.new ty) past payload where
  asked := List.prefix_refl _
  latest before' ty' payload' here := by
    rcases List.prefix_concat_iff.mp here with same | earlier
    · exact (List.append_inj' same rfl).1 ▸ List.prefix_refl _
    · exact (List.prefix_append _ _).trans earlier
  finished unset := by contradiction
  shown done := by contradiction

/-- Two requests of which neither was sent 2^32 frames behind the other, under one serial. -/
theorem same_number {i j : Nat} (same : UInt32.ofNat i = UInt32.ofNat j) (after : i < j + 2 ^ 32)
    (before : j < i + 2 ^ 32) : i = j := by
  have equal := congrArg UInt32.toNat same
  simp only [UInt32.toNat_ofNat'] at equal
  omega

/-- The answer in the frame `d` that `side` was handed belongs to the request the parser under
its serial is for. -/
theorem Entry.answered {start k : Rpc tk} {past before handling : List (Label tk)}
    {p : ResponseParser tk} (started : Started start) (run : Guarded Step Peaceful start past k)
    (entry : Entry past side n p before payload)
    (here : handling ++ [.answered side.other n payload' outcome serial] <+: past)
    (prompt : (sent side past).length < (received side.other handling).length + 2 ^ 32)
    (few : (sent side past).length ≤ (sent side before).length + 2 ^ 32) :
    payload' = payload ∧ (received side.other handling).length = (sent side before).length + 1 := by
  obtain ⟨j, data, last, number, carried, whole⟩ := answered_for started run here
  have sends : (Label.invoked side n p.ty payload).sent side = [frame payload] :=
    Label.sent_link side rfl
  have earlier := History.count_lt entry.asked sends
  have inside : (sent side past)[j]? = some data := by
    have first : sent side handling <+: sent side past := by
      obtain ⟨rest, rfl⟩ := (List.prefix_append _ _).trans here
      simp [sent]
    obtain ⟨rest, same⟩ := first
    rw [← same, List.getElem?_append_left (List.getElem?_eq_some_iff.mp carried).1, carried]
  have within := (List.getElem?_eq_some_iff.mp inside).1
  have asked := serial_eq started run entry.asked rfl
  obtain rfl : (sent side before).length = j := by
    apply same_number (asked.symm.trans number)
    · rw [sent, sent] at *
      omega
    · omega
  refine ⟨?_, last⟩
  have frame := History.output_at entry.asked sends
  obtain rfl := Option.some.inj (frame.symm.trans inside)
  exact whole.symm

theorem changed_response {k : Rpc tk} {side c : Side} {d : Dispatch UInt8}
    {p : ResponseParser tk} (entry : (onIncomingData k side d).requests c n = some p)
    (changed : k.requests c n ≠ some p) :
    (∀ rest, request tk d.payload ≠ .ok (.invoke rest)) ∧
      ∀ text, request tk d.payload ≠ .error text := by
  constructor
  · intro rest invoke
    exact changed (by simpa [onIncomingData, invoke] using entry)
  · intro text error
    exact changed (by simpa [onIncomingData, error] using entry)

theorem dispatched_answer {start k k' : Rpc tk} {past : List (Label tk)} {side : Side}
    {act : Connection.Label UInt8} {d : Dispatch UInt8} (lawful : tk.Lawful)
    (started : Started start) (run : Guarded Step Peaceful start past k)
    (step : Step k (.moved side act) k') (peaceful : Peaceful past k (.moved side act))
    (gives : act.dispatched = [d])
    (response : (∀ rest, request tk d.payload ≠ .ok (.invoke rest)) ∧
      ∀ text, request tk d.payload ≠ .error text) :
    ∃ before asked payload outcome serial,
      before ++ [.answered side.other asked payload outcome serial] <+: past ∧
      d.payload = answerPayload asked outcome ∧
      (sent side past).length < (received side.other before).length + 2 ^ 32 := by
  have silent : (Label.moved side act : Label tk).sent side.other = [] := by
    simp [Label.sent, Label.link, Link.of, sentFrames]
  obtain ⟨-, carried⟩ : d.serial = UInt32.ofNat (received side past).length ∧
      (sent side.other (past ++ [.moved side act]))[(received side past).length]? =
        some d.frame := by
    apply received_at started (.next run step peaceful)
    rw [Side.other_other, received_dispatch side past rfl gives]
    simp
  rw [sent_append, silent, List.append_nil] at carried
  rw [Dispatch.payload_eq] at response ⊢
  obtain ⟨before, asked, payload, outcome, serial, here, number, answer⟩ :=
    response_answered lawful run carried response.1 response.2
  refine ⟨before, asked, payload, outcome, serial, here, answer, ?_⟩
  exact peaceful.2 side act rfl (by simp [gives]) before asked payload outcome serial here number

theorem table_step {start k k' : Rpc tk} {past : List (Label tk)} {l : Label tk}
    (lawful : tk.Lawful) (started : Started start) (run : Guarded Step Peaceful start past k)
    (table : ∀ side n p, k.requests side n = some p →
      ∃ before payload, Entry past side n p before payload)
    (step : Step k l k') (peaceful : Peaceful past k l) :
    ∀ side n p, k'.requests side n = some p →
      ∃ before payload, Entry (past ++ [l]) side n p before payload := by
  have still {side : Side} {n : UInt32} {p : ResponseParser tk}
      (entry : k.requests side n = some p)
      (other : ∀ ty' payload', l ≠ .invoked side n ty' payload') :
      ∃ before payload, Entry (past ++ [l]) side n p before payload := by
    obtain ⟨before, payload, entry⟩ := table side n p entry
    exact ⟨before, payload, entry.later l other⟩
  have step' := step
  cases step with
  | invoke side' serial ty o method args moved =>
    intro side n p entry
    by_cases here : side = side' ∧ n = serial
    · obtain ⟨rfl, rfl⟩ := here
      obtain rfl : ResponseParser.new ty = p := by simpa using entry
      exact ⟨past, _, .new past side n ty _⟩
    · refine still ?_ fun ty' payload' same => ?_
      · simp only [Function.update_apply] at entry
        split at entry
        · rename_i own
          subst own
          rwa [Function.update_of_ne fun same => here ⟨rfl, same⟩] at entry
        · exact entry
      · cases same
        exact here ⟨rfl, rfl⟩
  | release | event | answer | lost | wait =>
    intro side n p entry
    exact still entry fun _ _ same => by cases same
  | @dispatch _ side' act d moved gives idle =>
    intro side n p entry
    have other (ty' : tk.Ty) (payload' : List UInt8) :
        (Label.moved side' act : Label tk) ≠ .invoked side n ty' payload' := by
      intro same
      cases same
    by_cases response : k.requests side n = some p
    · exact still response other
    · obtain ⟨before, asked, payload', outcome, serial, here, answer, prompt⟩ :=
        dispatched_answer lawful started run step' peaceful gives (changed_response entry response)
      rcases stored lawful answer entry with same | ⟨rfl, rfl, p₀, found, type, finished, shown⟩
      · exact absurd same response
      · obtain ⟨request, payload, old⟩ := table side n p₀ found
        refine ⟨request, payload, ⟨?_, (old.later _ other).latest, fun _ => finished, ?_⟩⟩
        · rw [type]
          exact (old.later _ other).asked
        · intro _ few
          have few :=
            Nat.le_trans (History.count_le (Label.sent side) (List.prefix_append past _)) few
          rcases shown with shown | ⟨set, same⟩
          · obtain ⟨rfl, number⟩ := old.answered started run here prompt few
            exact ⟨before, _, outcome, serial, here.trans (List.prefix_append _ _), number, shown⟩
          · obtain ⟨handling, asked, outcome, answer, here, number, shown⟩ :=
              old.shown (old.finished set) few
            exact ⟨handling, asked, outcome, answer, here.trans (List.prefix_append _ _), number,
              shows_same type set same shown⟩

theorem table_run {start k : Rpc tk} {hist : List (Label tk)} (lawful : tk.Lawful)
    (started : Started start) (run : Guarded Step Peaceful start hist k) :
    ∀ side n p, k.requests side n = some p →
      ∃ before payload, Entry hist side n p before payload := by
  have both : Guarded Step Peaceful start hist k ∧ ∀ side n p, k.requests side n = some p →
      ∃ before payload, Entry hist side n p before payload := by
    refine run.history (P := fun hist k => Guarded Step Peaceful start hist k ∧
      ∀ side n p, k.requests side n = some p →
        ∃ before payload, Entry hist side n p before payload) ?_ ⟨.start, ?_⟩
    · rintro past k l k' ⟨run, table⟩ step peaceful
      exact ⟨.next run step peaceful, table_step lawful started run table step peaceful⟩
    · obtain ⟨link, _⟩ := started
      intro side n p entry
      contradiction
  exact both.2

end Rpc

/-- Every run of two sessions on one connection that is never hung up, with requests both
ways: what `Wait` gives for a serial is what the other side answered to the request for which
`Invoke` returned it, while the serial has not come round again. -/
theorem answers_own_request {tk : Toolkit} {start k : Rpc tk} {hist : List (Rpc.Label tk)}
    (lawful : tk.Lawful) (started : Rpc.Started start)
    (run : Guarded Rpc.Step Rpc.Peaceful start hist k) {past : List (Rpc.Label tk)}
    {l : Rpc.Label tk} (here : past ++ [l] <+: hist) : Rpc.Correlated past l := by
  obtain ⟨u, v, run, step, _⟩ := run.at_label here
  cases step with
  | @wait side serial p ty found done =>
    obtain ⟨last, payload, entry⟩ := Rpc.table_run lawful started run side serial p found
    intro before ty' payload' asked few
    have after := History.count_lt entry.asked (Rpc.Label.sent_link side rfl)
    have number := Rpc.serial_eq started run asked rfl
    have number' := Rpc.serial_eq started run entry.asked rfl
    rcases History.position_cases asked entry.asked with ⟨rfl, same⟩ | earlier | later
    · cases same
      obtain ⟨handling, asked, outcome, answer, here, number, shown⟩ := entry.shown done few
      exact ⟨handling, asked, outcome, answer, here, number, shown ty⟩
    · -- the serial was used again, 2^32 frames later
      have between := History.count_lt earlier (Rpc.Label.sent_link side rfl)
      have same := Rpc.same_number (number.symm.trans number') (Nat.lt_add_right _ between)
        (Nat.lt_of_lt_of_le after few)
      exact absurd same (Nat.ne_of_lt between)
    · have outside := entry.latest before ty' payload' asked
      have := later.length_le
      have := outside.length_le
      simp only [List.length_append, List.length_singleton] at *
      omega
  | _ => trivial

namespace Rpc

/-- Runs too short for a serial to be used twice. -/
def Brief (past : List (Label tk)) (_k : Rpc tk) (l : Label tk) : Prop :=
  (∀ x ∈ l.link, Link.Calm x) ∧ past.length < 2 ^ 32

instance (past : List (Label tk)) (k : Rpc tk) (l : Label tk) : Decidable (Brief past k l) :=
  inferInstanceAs (Decidable (_ ∧ _))

theorem sent_length_le (side : Side) (past : List (Label tk)) :
    (sent side past).length ≤ past.length := by
  induction past with
  | nil => exact Nat.le_refl 0
  | cons l past ih =>
    have single := l.sent_single side
    simp only [sent, List.flatMap_cons, List.length_append, List.length_cons] at ih ⊢
    omega

theorem Brief.peaceful {past : List (Label tk)} {k : Rpc tk} {l : Label tk}
    (brief : Brief past k l) : Peaceful past k l := by
  refine ⟨brief.1, fun side _ _ _ _ _ _ _ _ _ _ => ?_⟩
  have short := Nat.lt_of_le_of_lt (sent_length_le side past) brief.2
  exact Nat.lt_of_lt_of_le short (Nat.le_add_left _ _)

theorem played (start : Rpc tk) (events : List (Event tk)) :
    Guarded Step Peaceful start (play perform Brief [] start events).1
      (play perform Brief [] start events).2 :=
  (play_guarded perform Brief perform_step .start events).mono Brief.peaceful

def fresh : Rpc .plain where
  link := .fresh

theorem started : Started fresh := .joined _ (.joined (.outgoing _) (.accepted _ 0) rfl)

def target : ObjectId := ⟨⟨['s'], 1⟩, 0⟩

def call : List UInt8 := invokePayload .plain target ['m'] []

def number (n : UInt32) : (ty : Toolkit.plain.Ty) × Toolkit.plain.Val ty := ⟨true, n⟩

/-- The numbers `Wait` returned. -/
def gave : Label .plain → Option (Side × UInt32)
  | .waited side _ (.value true n) => some (side, n)
  | _ => none

end Rpc

/-- Both sides call the other at the same time. -/
theorem answers_own_request_crossing :
    ∃ (hist : List (Rpc.Label .plain)) (k : Rpc .plain),
      Guarded Rpc.Step Rpc.Peaceful Rpc.fresh hist k ∧
      hist.filterMap Rpc.gave = [(.connecting, 7), (.accepting, 9)] ∧
      ∀ past l, past ++ [l] <+: hist → Rpc.Correlated past l := by
  have run := Rpc.played Rpc.fresh
    [.invoke .connecting true Rpc.target ['m'] [], .invoke .accepting true Rpc.target ['m'] [],
      .move .connecting (.output 99), .move .accepting (.output 3), .move .accepting (.output 99),
      .move .accepting (.input (frame Rpc.call)), .answer .accepting (.ok (Rpc.number 7)),
      .move .accepting .returned, .move .accepting (.output 99),
      .move .connecting (.input (frame Rpc.call)), .answer .connecting (.ok (Rpc.number 9)),
      .move .connecting .returned, .move .connecting (.output 99),
      .move .connecting (.input (frame (answerPayload 0 (.ok (Rpc.number 7))))),
      .move .connecting .returned, .wait .connecting 0 true,
      .move .accepting (.input (frame (answerPayload 0 (.ok (Rpc.number 9))))),
      .move .accepting .returned, .wait .accepting 0 true]
  exact ⟨_, _, run, by decide +kernel,
    fun past l here => answers_own_request Toolkit.plain_lawful Rpc.started run here⟩

end PBus
