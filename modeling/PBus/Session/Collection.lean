import PBus.Session.Requests

/-! Collecting replies with `Wait`, in any order: when a call of `Wait` whose reply has been
processed yields that reply, and when it does not. -/
namespace PBus
open Transition Session

namespace Calls
variable {tk : Toolkit}

/-- What a reply says about a request for a value of type `ty`: the value, or the exception to
rethrow, which is the one of the reply or what reading it throws. -/
def replyOutcome (ty : tk.Ty) (payload : List UInt8) : Option (Waited tk) :=
  match request tk payload with
  | .ok (.result data) =>
    match responseSerial tk data with
    | .ok (_, offset) =>
      match (tk.value ty).readAt data offset with
      | .ok (value, _) => some (.value ty value)
      | .error text => some (.rethrown text)
    | .error _ => none
  | .ok (.exception data) =>
    match responseSerial tk data with
    | .ok (_, offset) =>
      match readException tk data offset with
      | .ok text | .error text => some (.rethrown text)
    | .error _ => none
  | .ok (.invoke _) | .error _ => none

/-- A `Wait` whose reply has been processed does not poll again and does not time out; if it
asks for the type of the request and there is one reply, it ends as that reply says. -/
def Collects (past : List (Label tk)) : Label tk → Prop
  | .again origin serial => ∀ ty replies, asked origin serial past = some (ty, replies) →
      replies = []
  | .ended origin serial ty how => ∀ ty' replies,
      asked origin serial past = some (ty', replies) → replies ≠ [] →
      how ≠ .timedOut ∧ ∀ reply, replies = [reply] → ty = ty' →
        ∃ result, replyOutcome ty reply = some result ∧ how = .collected result
  | _ => True

theorem answered_cases {payload : List UInt8} {n : UInt32}
    (answers : answered tk payload = some n) :
    ∃ data offset, responseSerial tk data = .ok (n, offset) ∧
      (request tk payload = .ok (.result data) ∨ request tk payload = .ok (.exception data)) := by
  unfold answered at answers
  split at answers
  case h_3 => contradiction
  all_goals
    rename_i data kind
    cases serial : responseSerial tk data with
    | error e => simp [serial, Except.toOption] at answers
    | ok pair =>
      obtain rfl : pair.1 = n := by simpa [serial, Except.toOption] using answers
      exact ⟨data, pair.2, serial, by simp [kind]⟩

theorem settled_finished {p : ResponseParser tk} {r : Except Str (ResponseParser tk)}
    (read : ∀ q, r = .ok q → q.finished = true) : (settled p r).finished = true := by
  cases r with
  | ok q => exact read q rfl
  | error text => rfl

theorem reply_finished (p : ResponseParser tk) {payload : List UInt8} {n : UInt32}
    (answers : answered tk payload = some n) : (p.reply payload).finished = true := by
  obtain ⟨data, offset, serial, kind | kind⟩ := answered_cases answers
  · simp only [ResponseParser.reply, kind, serial]
    apply settled_finished
    intro q read
    cases value : (tk.value p.ty).readAt data offset with
    | error e => simp [ResponseParser.parse, value, bind, Except.bind] at read
    | ok pair =>
      simp only [ResponseParser.parse, value, bind, Except.bind, pure, Except.pure,
        Except.ok.injEq] at read
      rw [← read]
  · simp only [ResponseParser.reply, kind, serial]
    apply settled_finished
    intro q read
    cases text : readException tk data offset with
    | error e => simp [text, Functor.map, Except.map] at read
    | ok what =>
      simp only [text, Functor.map, Except.map, Except.ok.injEq] at read
      rw [← read]
      rfl

theorem asked_answers {o : ServiceId} {n : UInt32} {past : List (Label tk)} {ty : tk.Ty}
    {replies : List (List UInt8)} (known : asked o n past = some (ty, replies)) :
    ∀ r ∈ replies, answered tk r = some n := by
  induction past using List.reverseRecOn generalizing ty replies with
  | nil => contradiction
  | append_singleton past l ih =>
    rw [asked_append] at known
    cases l with
    | invoked origin serial ty' =>
      simp only [Label.track] at known
      split at known
      · obtain ⟨-, rfl⟩ := Prod.mk.inj (Option.some.inj known)
        simp
      · exact ih known
    | incoming origin payload =>
      simp only [Label.track] at known
      split at known
      · rename_i here
        obtain ⟨⟨ty', earlier⟩, before, same⟩ := Option.map_eq_some_iff.mp known
        obtain ⟨rfl, rfl⟩ := Prod.mk.inj same
        intro r hr
        rcases List.mem_append.mp hr with hr | hr
        · exact ih before r hr
        · exact List.mem_singleton.mp hr ▸ here.2
      · exact ih known
    | called | arrived | again | ended => exact ih known

theorem parser_finished {ty : tk.Ty} {replies : List (List UInt8)}
    (answers : ∀ r ∈ replies, answered tk r = some n) :
    (parser (ty, replies)).finished = true ↔ replies ≠ [] := by
  cases replies using List.reverseRecOn with
  | nil => simp [parser, ResponseParser.new]
  | append_singleton earlier last =>
    simp only [parser, List.foldl_append, List.foldl_cons, List.foldl_nil]
    exact iff_of_true (reply_finished _ (answers last (by simp))) (by simp)

theorem asked_finished {o : ServiceId} {n : UInt32} {past : List (Label tk)} {ty : tk.Ty}
    {replies : List (List UInt8)} (known : asked o n past = some (ty, replies)) :
    (parser (ty, replies)).finished = true ↔ replies ≠ [] :=
  parser_finished (asked_answers known)

theorem parser_single {ty : tk.Ty} {reply : List UInt8} (answers : answered tk reply = some n) :
    replyOutcome ty reply = some ((parser (ty, [reply])).wait ty) := by
  obtain ⟨data, offset, serial, kind | kind⟩ := answered_cases answers
  · simp only [replyOutcome, parser, List.foldl_cons, List.foldl_nil, ResponseParser.reply, kind,
      serial, ResponseParser.parse, ResponseParser.new]
    cases (tk.value ty).readAt data offset with
    | error e => rfl
    | ok pair => simp [settled, bind, Except.bind, pure, Except.pure, ResponseParser.wait]
  · simp only [replyOutcome, parser, List.foldl_cons, List.foldl_nil, ResponseParser.reply, kind,
      serial]
    cases readException tk data offset <;> rfl

theorem replyOutcome_result (lawful : tk.Lawful) (serial : UInt32) (ty : tk.Ty)
    (value : tk.Val ty) :
    replyOutcome ty (resultPayload tk serial ((tk.value ty).write value)) =
      some (.value ty value) := by
  have read := (ResponseParser.new ty).reply_result lawful serial value
  rw [parser_single (answered_result lawful serial _), parser, List.foldl_cons, List.foldl_nil]
  simp only [ResponseParser.new] at read ⊢
  rw [read, ResponseParser.wait, if_pos rfl]

theorem replyOutcome_exception (lawful : tk.Lawful) (serial : UInt32) (ty : tk.Ty) (what : Str) :
    replyOutcome ty (exceptionPayload tk serial what) = some (.rethrown what) := by
  rw [parser_single (answered_exception lawful serial what), parser, List.foldl_cons,
    List.foldl_nil, ResponseParser.reply_exception lawful]
  rfl

theorem polled_entry {w : Waiting tk} {t : RequestTable tk} {p : ResponseParser tk}
    (entry : t w.origin w.serial = some p) :
    w.polled t =
      if w.events = 0 then some .timedOut
      else if p.finished then some (.collected (p.wait w.ty)) else none := by
  simp only [Waiting.polled, RequestTable.getResponseParser, entry]

/-- As long as its poll has brought no event, the innermost `Wait` has been called just now or
has no reply yet. The others are in the handler of an event. -/
structure Idle (past : List (Label tk)) (k : Calls tk) : Prop where
  outer : ∀ w ∈ k.waits.tail, 0 < w.events
  inner : ∀ w ∈ k.waits.head?, w.events = 0 →
    (∃ before, past = before ++ [.called w.origin w.serial w.ty]) ∨
    ∀ p, k.requests w.origin w.serial = some p → p.finished = false

theorem idle {k : Calls tk} {past : List (Label tk)} (run : Reaches Step {} past k) :
    Idle past k := by
  refine run.history (P := Idle) ?_ ⟨by simp, by simp⟩
  intro past k l k' before step
  have busy (running : k.running) : ∀ w ∈ k.waits.head?, 0 < w.events := by
    intro w hw
    simpa [Calls.running, Option.mem_def.mp hw] using running
  cases step.does with
  | invoked origin serial ty running =>
    exact ⟨before.outer, fun w hw none => absurd (busy running w hw) (by omega)⟩
  | incoming origin payload running =>
    exact ⟨before.outer, fun w hw none => absurd (busy running w hw) (by omega)⟩
  | called origin serial ty running =>
    constructor
    case outer =>
      intro w hw
      cases waits : k.waits with
      | nil => simp [waits] at hw
      | cons first outer =>
        simp only [List.tail_cons, waits, List.mem_cons] at hw
        rcases hw with rfl | hw
        · exact busy running w (by simp [waits])
        · exact before.outer w (by simp [waits, hw])
    case inner =>
      rintro w ⟨⟩ _
      exact .inl ⟨past, rfl⟩
  | arrived waits =>
    constructor
    case outer => simpa [waits] using before.outer
    case inner =>
      rintro w ⟨⟩ none
      simp at none
  | again waits more =>
    constructor
    case outer => simpa [waits] using before.outer
    case inner =>
      rintro w ⟨⟩ none
      refine .inr fun p entry => ?_
      simp only [Waiting.polled, RequestTable.getResponseParser] at more
      split at more
      · contradiction
      · simpa [show k.requests _ _ = some p from entry] using more
  | ended waits how =>
    have later := before.outer
    rw [waits, List.tail_cons] at later
    exact ⟨fun w hw => later w (List.mem_of_mem_tail hw),
      fun w hw none => absurd (later w (List.mem_of_mem_head? hw)) (by omega)⟩

/-- A `Wait` that ends right behind its call got no event from its first `Poll::Wait`. -/
theorem ended_at_once {k : Calls tk} {past hist : List (Label tk)} (run : Reaches Step {} hist k)
    (here : past ++ [.called o n ty, .ended o n ty how] <+: hist) : how = .timedOut := by
  obtain ⟨rest, rfl⟩ := here
  obtain ⟨_, reached, _⟩ := run.split
  obtain ⟨_, _, last⟩ := reached.split
  cases last with | next call last =>
  cases last with | next leave _ =>
  cases call.does with | called =>
  cases leave.does with | @ended w _ _ waits outcome =>
  have silent : w.events = 0 := by rw [← (List.cons.inj waits).1]
  rw [Waiting.polled, if_pos silent] at outcome
  exact (Option.some.inj outcome).symm

end Calls
open Calls

/-- In a run every `Wait` whose reply has been processed collects it, exactly if no `Wait` is
called with its reply processed and ends right there, with no event from its first `Poll::Wait`. -/
theorem collects_iff {tk : Toolkit} {k : Calls tk} {hist : List (Calls.Label tk)}
    (run : Reaches Step {} hist k) :
    (∀ past l, past ++ [l] <+: hist → Collects past l) ↔
      ∀ past origin serial ty how,
        past ++ [.called origin serial ty, .ended origin serial ty how] <+: hist →
        ∀ ty' replies, asked origin serial past = some (ty', replies) → replies = [] := by
  constructor
  · intro all past o n ty how here ty' replies known
    obtain rfl := ended_at_once run here
    have collects := all (past ++ [.called o n ty]) (.ended o n ty .timedOut) (by simpa using here)
    by_contra some'
    exact (collects ty' replies (by rw [asked_append]; exact known) some').1 rfl
  · intro prompt past l here
    obtain ⟨rest, rfl⟩ := here
    obtain ⟨k₂, reached, _⟩ := run.split
    obtain ⟨k₁, before, last⟩ := reached.split
    have step : Step k₁ l k₂ := by
      cases last with
      | next step tail => cases tail with | refl => exact step
    have parsed {o : ServiceId} {n : UInt32} {ty : tk.Ty} {replies : List (List UInt8)}
        (known : asked o n past = some (ty, replies)) :
        k₁.requests o n = some (parser (ty, replies)) := by
      rw [requests_eq before, known, Option.map_some]
    cases step.does with
    | invoked | incoming | called | arrived => trivial
    | again waits more =>
      intro ty replies known
      by_contra some'
      have finished := (asked_finished known).mpr some'
      rw [polled_entry (parsed known), if_pos finished] at more
      split at more <;> contradiction
    | @ended w outer how waits outcome =>
      intro ty replies known some'
      have finished := (asked_finished known).mpr some'
      rw [polled_entry (parsed known), if_pos finished] at outcome
      by_cases silent : w.events = 0
      · exfalso
        rw [if_pos silent] at outcome
        obtain rfl := Option.some.inj outcome
        rcases (idle before).inner w (by simp [waits]) silent with ⟨earlier, rfl⟩ | unfinished
        · rw [asked_append] at known
          exact some' (prompt earlier w.origin w.serial w.ty .timedOut (by simp) ty replies known)
        · rw [unfinished _ (parsed known)] at finished
          contradiction
      · rw [if_neg silent] at outcome
        obtain rfl := Option.some.inj outcome
        refine ⟨by simp, ?_⟩
        rintro reply rfl rfl
        exact ⟨_, parser_single (asked_answers known reply (by simp)), rfl⟩

/-- Two requests collected the other way round, each reply coming while its `Wait` runs. -/
theorem collects_reversed :
    let o : ServiceId := ⟨['a'], 1⟩
    let replyTo (serial : UInt32) (n : UInt32) :=
      resultPayload .plain serial (Toolkit.plain.u32.write n)
    let hist : List (Calls.Label .plain) :=
      [.invoked o 0 true, .invoked o 1 true, .called o 1 true, .arrived, .incoming o (replyTo 1 6),
        .ended o 1 true (.collected (.value true (6 : UInt32))), .called o 0 true, .arrived,
        .incoming o (replyTo 0 5), .ended o 0 true (.collected (.value true (5 : UInt32)))]
    ∀ past l, past ++ [l] <+: hist → Collects past l := by
  intro o replyTo hist
  have run : Reaches Step {} hist _ := .next ⟨.invoke o 0 true, rfl⟩ (.next
    ⟨.invoke o 1 true, rfl⟩ (.next ⟨.wait o 1 true, rfl⟩ (.next ⟨.arrive, rfl⟩ (.next
    ⟨.incoming o (replyTo 1 6), rfl⟩ (.next ⟨.polled, rfl⟩ (.next ⟨.wait o 0 true, rfl⟩ (.next
    ⟨.arrive, rfl⟩ (.next ⟨.incoming o (replyTo 0 5), rfl⟩ (.next ⟨.polled, rfl⟩
    (.refl _))))))))))
  refine (collects_iff run).mpr fun past origin serial ty how here => ?_
  obtain rfl := ended_at_once run here
  have ended : .ended origin serial ty .timedOut ∈ hist :=
    here.subset (List.mem_append_right past (List.mem_cons_of_mem _ List.mem_cons_self))
  simp only [hist, List.mem_cons, List.not_mem_nil, or_false] at ended
  rcases ended with h | h | h | h | h | h | h | h | h | h <;> cases h

/-- Two replies come in one event. The first `Wait` yields its own; the second, for the other
one, gets no event and times out. -/
theorem processed_times_out :
    let o : ServiceId := ⟨['a'], 1⟩
    let replyTo (serial : UInt32) (n : UInt32) :=
      resultPayload .plain serial (Toolkit.plain.u32.write n)
    let past : List (Calls.Label .plain) :=
      [.invoked o 0 true, .invoked o 1 true, .called o 1 true, .arrived, .incoming o (replyTo 0 5),
        .incoming o (replyTo 1 6), .ended o 1 true (.collected (.value true (6 : UInt32))),
        .called o 0 true]
    (∃ k : Calls .plain, Reaches Step {} (past ++ [.ended o 0 true .timedOut]) k) ∧
      asked o 0 past = some (true, [replyTo 0 5]) ∧
      ¬ Collects past (.ended o 0 true .timedOut) := by
  intro o replyTo past
  refine ⟨⟨_, .next ⟨.invoke o 0 true, rfl⟩ (.next ⟨.invoke o 1 true, rfl⟩
    (.next ⟨.wait o 1 true, rfl⟩ (.next ⟨.arrive, rfl⟩ (.next ⟨.incoming o (replyTo 0 5), rfl⟩
    (.next ⟨.incoming o (replyTo 1 6), rfl⟩ (.next ⟨.polled, rfl⟩ (.next ⟨.wait o 0 true, rfl⟩
    (.next ⟨.polled, rfl⟩ (.refl _)))))))))⟩, rfl, fun collects => ?_⟩
  exact (collects true [replyTo 0 5] rfl (by simp)).1 rfl

end PBus
