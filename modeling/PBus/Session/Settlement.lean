import PBus.Foundation.Throwing
import PBus.Session.Requests

/-! What one reply does to `_requests`: `OnIncomingResult` and `OnIncomingException` with the
`try` around their bodies, in which they may have found a parser or not when something throws. -/
namespace PBus
open Transition Session Throwing

inductive Reply where
  | result
  | exception
  deriving DecidableEq, Repr

/-- What a handler works on: `_requests`, and where its local `response` was found. -/
structure Handling (tk : Toolkit) where
  requests : RequestTable tk
  response : Option UInt32 := none

/-- A handler can throw, and what it did before it threw stays done. -/
abbrev HandlerM (tk : Toolkit) := EStateM Str (Handling tk)

namespace HandlerM
variable {tk : Toolkit}

/-- `response = GetResponseParser(origin, serial)`, which must not be null. -/
def find (origin : ServiceId) (serial : UInt32) : HandlerM tk (ResponseParser tk) := do
  let h ← get
  match h.requests.getResponseParser origin serial with
  | none => throw ("no response with serial ".toList ++ decimal serial)
  | some parser =>
    set { h with response := some serial }
    return parser

/-- The parser under a serial is changed in place. -/
def store (origin : ServiceId) (serial : UInt32) (parser : ResponseParser tk) :
    HandlerM tk Unit :=
  modify fun h => { h with
    requests := Function.update h.requests origin
      (Function.update (h.requests origin) serial (some parser)) }

/-- The `try` block: the serial, its parser, and what is behind the serial read into it. -/
def body (origin : ServiceId) (data : List UInt8)
    (read : ResponseParser tk → Nat → Except Str (ResponseParser tk)) : HandlerM tk Unit := do
  let (responseSerial, offset) ← MonadExcept.ofExcept (Session.responseSerial tk data)
  let response ← find origin responseSerial
  let response ← MonadExcept.ofExcept (read response offset)
  store origin responseSerial response

/-- The `catch` block: `if (response) response->SetException(std::current_exception())`. -/
def recover (origin : ServiceId) (ex : Str) : HandlerM tk Unit := do
  let h ← get
  match h.response with
  | none => return ()
  | some serial =>
    match h.requests.getResponseParser origin serial with
    | none => return ()
    | some parser => store origin serial (parser.setException ex)

def handler (origin : ServiceId) (data : List UInt8)
    (read : ResponseParser tk → Nat → Except Str (ResponseParser tk)) : HandlerM tk Unit :=
  tryCatch (body origin data read) (recover origin)

/-- `Session::OnIncomingException`. -/
def onIncomingException (origin : ServiceId) (data : List UInt8) : HandlerM tk Unit :=
  handler origin data fun response offset => response.setException <$> readException tk data offset

/-- `Session::OnIncomingResult`. -/
def onIncomingResult (origin : ServiceId) (data : List UInt8) : HandlerM tk Unit :=
  handler origin data fun response offset => response.parse data offset

/-- The handler `OnIncomingData` calls for a reply. -/
def onIncoming (tk : Toolkit) : Reply → ServiceId → List UInt8 → HandlerM tk Unit
  | .result => onIncomingResult
  | .exception => onIncomingException

/-- What the handler of a reply reads into the parser. -/
def readReply : Reply → List UInt8 → ResponseParser tk → Nat → Except Str (ResponseParser tk)
  | .result, data, response, offset => response.parse data offset
  | .exception, data, response, offset => response.setException <$> readException tk data offset

theorem onIncoming_eq (kind : Reply) (origin : ServiceId) (data : List UInt8) :
    onIncoming tk kind origin data = handler origin data (readReply kind data) := by
  cases kind <;> rfl

section Rules
variable {t : RequestTable tk} {origin : ServiceId} {n : UInt32} {r : Option UInt32}

theorem find_none (absent : t origin n = none) :
    find origin n ⟨t, r⟩ = .error ("no response with serial ".toList ++ decimal n) ⟨t, r⟩ := by
  have absent' : t.getResponseParser origin n = none := absent
  change (match t.getResponseParser origin n with
    | none => throw _
    | some parser => do set (⟨t, some n⟩ : Handling tk); return parser : HandlerM tk _) ⟨t, r⟩ = _
  rw [absent']
  rfl

theorem find_some {p : ResponseParser tk} (found : t origin n = some p) :
    find origin n ⟨t, r⟩ = .ok p ⟨t, some n⟩ := by
  have found' : t.getResponseParser origin n = some p := found
  change (match t.getResponseParser origin n with
    | none => throw _
    | some parser => do set (⟨t, some n⟩ : Handling tk); return parser : HandlerM tk _) ⟨t, r⟩ = _
  rw [found']
  rfl

theorem recover_found {p : ResponseParser tk} (found : t origin n = some p) (ex : Str) :
    recover origin ex ⟨t, some n⟩ = store origin n (p.setException ex) ⟨t, some n⟩ := by
  have found' : t.getResponseParser origin n = some p := found
  change (match t.getResponseParser origin n with
    | none => return ()
    | some parser => store origin n (parser.setException ex) : HandlerM tk _) ⟨t, some n⟩ = _
  rw [found']

end Rules

/-- Whatever throws in it, a handler returns, and has done to the table of its origin what
`respond` says. -/
theorem handler_returns (t : RequestTable tk) (origin : ServiceId) (data : List UInt8)
    (read : ResponseParser tk → Nat → Except Str (ResponseParser tk)) :
    ∃ response, handler origin data read { requests := t } =
      .ok () ⟨Function.update t origin (respond (t origin) data read), response⟩ := by
  cases serial : responseSerial tk data with
  | error e =>
    have thrown : body origin data read ⟨t, none⟩ = .error e ⟨t, none⟩ := by
      rw [body, serial]
      rfl
    have same : respond (t origin) data read = t origin := by rw [respond, serial]
    rw [same, Function.update_eq_self]
    exact ⟨none, run_tryCatch_error thrown _⟩
  | ok pair =>
    obtain ⟨n, offset⟩ := pair
    have begun : body origin data read ⟨t, none⟩ = (do
        let response ← find origin n
        let response ← MonadExcept.ofExcept (read response offset)
        store origin n response) ⟨t, none⟩ := by
      rw [body, serial]
      rfl
    cases entry : t origin n with
    | none =>
      have thrown := begun.trans (run_bind_error (find_none entry))
      have same : respond (t origin) data read = t origin := by simp [respond, serial, entry]
      rw [same, Function.update_eq_self]
      exact ⟨none, run_tryCatch_error thrown _⟩
    | some p =>
      have found := begun.trans (run_bind_ok (find_some entry))
      simp only [respond, serial, entry]
      cases outcome : read p offset with
      | error e =>
        rw [outcome] at found
        refine ⟨some n, (run_tryCatch_error found _).trans ?_⟩
        exact recover_found entry e
      | ok p' =>
        rw [outcome] at found
        exact ⟨some n, run_tryCatch_ok found _⟩

/-- The entry a reply is read into: it is finished, and without an exception only if it is a
result with a value of the type. -/
structure Settled (kind : Reply) (data : List UInt8) (offset : Nat)
    (p p' : ResponseParser tk) : Prop where
  ty : p'.ty = p.ty
  finished : p'.finished = true
  value : ∀ value behind, kind = .result →
    (tk.value p.ty).readAt data offset = .ok (value, behind) →
    p' = { ty := p.ty, value, exception := none, finished := true }
  exception : p'.exception = none ↔
    kind = .result ∧ ∃ result, (tk.value p.ty).readAt data offset = .ok result

theorem settled_setException {kind : Reply} {data : List UInt8} {offset : Nat}
    {p : ResponseParser tk} (text : Str)
    (no : ¬ (kind = .result ∧ ∃ result, (tk.value p.ty).readAt data offset = .ok result)) :
    Settled kind data offset p (p.setException text) where
  ty := rfl
  finished := rfl
  value _ _ result read := absurd ⟨result, _, read⟩ no
  exception := iff_of_false (Option.some_ne_none text) no

/-- Both handlers settle an entry that has no exception yet, however malformed the rest is. -/
theorem settled_readReply (kind : Reply) (data : List UInt8) (offset : Nat) {p : ResponseParser tk}
    (open' : p.exception = none) :
    Settled kind data offset p (settled p (readReply kind data p offset)) := by
  cases kind with
  | result =>
    cases value : (tk.value p.ty).readAt data offset with
    | error e =>
      have thrown : readReply .result data p offset = .error e := by
        simp only [readReply, ResponseParser.parse, value, bind, Except.bind]
      rw [thrown]
      exact settled_setException e (by simp [value])
    | ok result =>
      obtain ⟨value', behind⟩ := result
      have parsed : readReply .result data p offset =
          .ok { ty := p.ty, value := value', exception := none, finished := true } := by
        simp only [readReply, ResponseParser.parse, value, bind, Except.bind, pure, Except.pure,
          open']
      rw [parsed]
      constructor
      case ty => rfl
      case finished => rfl
      case value =>
        intro value'' behind' _ same
        rw [value, Except.ok.injEq, Prod.mk.injEq] at same
        rw [← same.1]
        rfl
      case exception => exact iff_of_true rfl ⟨rfl, _, value⟩
  | exception =>
    have no : ¬ (Reply.exception = .result ∧
        ∃ result, (tk.value p.ty).readAt data offset = .ok result) := by simp
    cases text : readException tk data offset with
    | error e =>
      have thrown : readReply .exception data p offset = .error e := by
        simp only [readReply, text, Functor.map, Except.map]
      rw [thrown]
      exact settled_setException e no
    | ok what =>
      have stored : readReply .exception data p offset = .ok (p.setException what) := by
        simp only [readReply, text, Functor.map, Except.map]
      rw [stored]
      exact settled_setException what no

end HandlerM
open HandlerM

/-- `_requests`, with what `BaseResponseParser` sees to: no exception without `_finished`. -/
structure ParserTable (tk : Toolkit) where
  requests : RequestTable tk
  finished : ∀ o n p, requests o n = some p → p.exception.isSome → p.finished = true

/-- A reply from `origin` settles the request it names and nothing else. -/
structure SettlesOnly {tk : Toolkit} (kind : Reply) (origin : ServiceId) (data : List UInt8)
    (t t' : RequestTable tk) : Prop where
  /-- Every entry but the one of the decoded serial is unchanged. -/
  others : ∀ o n, ¬ (o = origin ∧ ∃ offset, responseSerial tk data = .ok (n, offset)) →
    t' o n = t o n
  none_added : ∀ o n, (t' o n).isSome → (t o n).isSome
  settled : ∀ n offset p, responseSerial tk data = .ok (n, offset) → t origin n = some p →
    p.finished = false → ∃ p', t' origin n = some p' ∧ Settled kind data offset p p'
  undecoded : ∀ e, responseSerial tk data = .error e → t' = t
  unregistered : ∀ n offset, responseSerial tk data = .ok (n, offset) → t origin n = none → t' = t

namespace ParserTable
variable {tk : Toolkit}

def after (t : RequestTable tk) (kind : Reply) (origin : ServiceId) (data : List UInt8) :
    RequestTable tk :=
  Function.update t origin (respond (t origin) data (readReply kind data))

theorem after_entry (t : RequestTable tk) (kind : Reply) (origin : ServiceId) (data : List UInt8)
    (o : ServiceId) (n : UInt32) :
    after t kind origin data o n =
      if o = origin then
        match responseSerial tk data with
        | .ok (serial, offset) =>
          if serial = n then (t o n).map fun p => Session.settled p (readReply kind data p offset)
          else t o n
        | .error _ => t o n
      else t o n := by
  by_cases here : o = origin
  · subst here
    rw [if_pos rfl, after, Function.update_self]
    exact respond_entry _ _ _ _
  · rw [after, Function.update_of_ne here, if_neg here]

theorem after_cases {t : RequestTable tk} {kind : Reply} {origin o : ServiceId}
    {data : List UInt8} {n : UInt32} {p : ResponseParser tk}
    (entry : after t kind origin data o n = some p) :
    t o n = some p ∨ ∃ old offset, t o n = some old ∧
      Session.settled old (readReply kind data old offset) = p := by
  rw [after_entry] at entry
  split at entry
  · split at entry
    next serial offset _ =>
      split at entry
      · obtain ⟨old, found, same⟩ := Option.map_eq_some_iff.mp entry
        exact .inr ⟨old, offset, found, same⟩
      · exact .inl entry
    next => exact .inl entry
  · exact .inl entry

theorem settlesOnly_after (t : ParserTable tk) (kind : Reply) (origin : ServiceId)
    (data : List UInt8) :
    SettlesOnly kind origin data t.requests (after t.requests kind origin data) := by
  constructor
  case others =>
    intro o n other
    rw [after_entry]
    split
    next here =>
      cases serial : responseSerial tk data with
      | error e => rfl
      | ok pair =>
        obtain ⟨serial', offset⟩ := pair
        have different : serial' ≠ n := by
          rintro rfl
          exact other ⟨here, offset, serial⟩
        exact if_neg different
    next => rfl
  case none_added =>
    intro o n entry
    obtain ⟨p, left⟩ := Option.isSome_iff_exists.mp entry
    rcases after_cases left with same | ⟨old, _, found, _⟩
    · exact Option.isSome_of_eq_some same
    · exact Option.isSome_of_eq_some found
  case settled =>
    intro n offset p serial entry unfinished
    have open' : p.exception = none := by
      rw [← Option.not_isSome_iff_eq_none]
      intro set
      rw [t.finished origin n p entry set] at unfinished
      contradiction
    refine ⟨_, ?_, settled_readReply kind data offset open'⟩
    rw [after_entry, if_pos rfl, serial]
    simp only [if_true, entry, Option.map_some]
  case undecoded =>
    intro e serial
    funext o n
    rw [after_entry, serial]
    split <;> rfl
  case unregistered =>
    intro n offset serial entry
    funext o m
    rw [after_entry, serial]
    simp only
    split
    next here =>
      by_cases same : n = m
      · rw [if_pos same, here, ← same, entry]
        rfl
      · exact if_neg same
    next => rfl

theorem finished_readReply (kind : Reply) (data : List UInt8) (offset : Nat)
    {p : ResponseParser tk} : (settled p (readReply kind data p offset)).finished = true := by
  cases kind with
  | result =>
    simp only [readReply, ResponseParser.parse]
    cases (tk.value p.ty).readAt data offset <;> rfl
  | exception =>
    simp only [readReply]
    cases readException tk data offset <;> rfl

theorem finished_after (t : ParserTable tk) (kind : Reply) (origin : ServiceId)
    (data : List UInt8) (o : ServiceId) (n : UInt32) (p : ResponseParser tk)
    (entry : after t.requests kind origin data o n = some p) (set : p.exception.isSome) :
    p.finished = true := by
  rcases after_cases entry with same | ⟨old, offset, _, rfl⟩
  · exact t.finished o n p same set
  · exact finished_readReply kind data offset

def reply (t : ParserTable tk) (kind : Reply) (origin : ServiceId) (data : List UInt8) :
    ParserTable tk where
  requests := after t.requests kind origin data
  finished := finished_after t kind origin data

/-- The table `Invoke` leaves. -/
def invoke (t : ParserTable tk) (origin : ServiceId) (serial : UInt32) (ty : tk.Ty) :
    ParserTable tk where
  requests := t.requests.invoke origin serial ty
  finished o n p entry set := by
    rw [RequestTable.invoke_entry] at entry
    split at entry
    · obtain rfl := Option.some.inj entry
      simp [ResponseParser.new] at set
    · exact t.finished o n p entry set

theorem onIncomingData_table (t : ParserTable tk) (origin : ServiceId) (payload : List UInt8) :
    ∃ t' : ParserTable tk, t'.requests = t.requests.onIncomingData origin payload := by
  unfold RequestTable.onIncomingData
  split
  next data _ => exact ⟨t.reply .exception origin data, rfl⟩
  next data _ => exact ⟨t.reply .result origin data, rfl⟩
  next => exact ⟨t, rfl⟩
  next => exact ⟨t, rfl⟩

theorem reachable {k : Calls tk} {hist : List (Calls.Label tk)}
    (run : Reaches Calls.Step {} hist k) : ∃ t : ParserTable tk, t.requests = k.requests := by
  refine run.invariant (P := fun k => ∃ t : ParserTable tk, t.requests = k.requests) ?_ ?_
  · rintro k l k' ⟨t, held⟩ step
    cases step.does with
    | invoked origin serial ty running => exact ⟨t.invoke origin serial ty, held ▸ rfl⟩
    | incoming origin payload running => exact held ▸ t.onIncomingData_table origin payload
    | called | arrived | again | ended => exact ⟨t, held⟩
  · exact ⟨⟨fun _ _ => none, fun _ _ _ entry => absurd entry (by simp)⟩, rfl⟩

end ParserTable

/-- In every state of a session, the handler of a reply returns whatever the reply holds, and
settles the request it answers and nothing else. -/
theorem reply_settles {tk : Toolkit} (t : ParserTable tk) (kind : Reply) (origin : ServiceId)
    (data : List UInt8) :
    ∃ (t' : ParserTable tk) (response : Option UInt32),
      onIncoming tk kind origin data { requests := t.requests } = .ok () ⟨t'.requests, response⟩ ∧
      SettlesOnly kind origin data t.requests t'.requests := by
  obtain ⟨response, returned⟩ := handler_returns t.requests origin data (readReply kind data)
  rw [onIncoming_eq, returned]
  exact ⟨t.reply kind origin data, response, rfl, t.settlesOnly_after kind origin data⟩

end PBus
