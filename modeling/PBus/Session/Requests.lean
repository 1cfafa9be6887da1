import PBus.Session.Rpc

/-! `_requests` over the life of a session: the calls of `Invoke` and `Wait` and the frames
that arrive, in any order. A `Wait` runs the poll, so that whatever happens in it happens in
the handler of an event, other calls of `Wait` included. -/
namespace PBus
open Transition Session

/-- `_requests`. -/
abbrev RequestTable (tk : Toolkit) := ServiceId → Requests tk

namespace RequestTable
variable {tk : Toolkit}

/-- `Session::GetResponseParser`. -/
def getResponseParser (t : RequestTable tk) (origin : ServiceId) (serial : UInt32) :
    Option (ResponseParser tk) := t origin serial

/-- What `Invoke<ty>` enters once `MakeRequest` has returned `serial`. -/
def invoke (t : RequestTable tk) (origin : ServiceId) (serial : UInt32) (ty : tk.Ty) :
    RequestTable tk :=
  Function.update t origin (Function.update (t origin) serial (some (.new ty)))

/-- What `OnIncomingData` makes of a payload. -/
def onIncomingData (t : RequestTable tk) (origin : ServiceId) (payload : List UInt8) :
    RequestTable tk :=
  match request tk payload with
  | .ok (.exception data) => Function.update t origin (onIncomingException (t origin) data)
  | .ok (.result data) => Function.update t origin (onIncomingResult (t origin) data)
  | .ok (.invoke _) | .error _ => t

end RequestTable

/-- How a call of `Wait` ends: with the stored reply or `Timed out waiting for reply`. -/
inductive Ending (tk : Toolkit) where
  | collected (result : Waited tk)
  | timedOut

/-- A call of `Wait<ty>(origin, serial)` that runs the poll, and how many events its current
`Poll::Wait` has brought so far. -/
structure Waiting (tk : Toolkit) where
  origin : ServiceId
  serial : UInt32
  ty : tk.Ty
  events : Nat := 0

/-- `WaitResponse` when `Poll::Wait` returns, and the rest of `Wait`: how the call ends, or
nothing if it polls again. -/
def Waiting.polled {tk : Toolkit} (w : Waiting tk) (t : RequestTable tk) : Option (Ending tk) :=
  if w.events = 0 then some .timedOut
  else
    match t.getResponseParser w.origin w.serial with
    | some response => if response.finished then some (.collected (response.wait w.ty)) else none
    | none => none

/-- The table, and the calls of `Wait` inside each other, innermost first. -/
structure Calls (tk : Toolkit) where
  requests : RequestTable tk := fun _ _ => none
  waits : List (Waiting tk) := []

namespace Calls
variable {tk : Toolkit}

inductive Label (tk : Toolkit) where
  /-- `Invoke<ty>(origin, ...)` returned `serial`. -/
  | invoked (origin : ServiceId) (serial : UInt32) (ty : tk.Ty)
  /-- `OnIncomingData` handled a frame. -/
  | incoming (origin : ServiceId) (payload : List UInt8)
  /-- `Wait<ty>(origin, serial)` was called. -/
  | called (origin : ServiceId) (serial : UInt32) (ty : tk.Ty)
  /-- The innermost `Poll::Wait` brought an event. -/
  | arrived
  /-- The innermost `Wait`, for this request, polls once more. -/
  | again (origin : ServiceId) (serial : UInt32)
  | ended (origin : ServiceId) (serial : UInt32) (ty : tk.Ty) (how : Ending tk)

inductive Event (tk : Toolkit) where
  | invoke (origin : ServiceId) (serial : UInt32) (ty : tk.Ty)
  | incoming (origin : ServiceId) (payload : List UInt8)
  | wait (origin : ServiceId) (serial : UInt32) (ty : tk.Ty)
  | arrive
  /-- The innermost `Poll::Wait` returns. -/
  | polled

/-- Code of the session runs: outside every `Wait`, or in the handler of an event. -/
def running (k : Calls tk) : Bool := k.waits.head?.all fun w => 0 < w.events

def perform (k : Calls tk) : Event tk → Option (Label tk × Calls tk)
  | .invoke origin serial ty =>
    if k.running then
      some (.invoked origin serial ty, { k with requests := k.requests.invoke origin serial ty })
    else none
  | .incoming origin payload =>
    if k.running then
      some (.incoming origin payload,
        { k with requests := k.requests.onIncomingData origin payload })
    else none
  | .wait origin serial ty =>
    if k.running then
      some (.called origin serial ty, { k with waits := { origin, serial, ty } :: k.waits })
    else none
  | .arrive =>
    match k.waits with
    | [] => none
    | w :: outer => some (.arrived, { k with waits := { w with events := w.events + 1 } :: outer })
  | .polled =>
    match k.waits with
    | [] => none
    | w :: outer =>
      match w.polled k.requests with
      | none =>
        some (.again w.origin w.serial, { k with waits := { w with events := 0 } :: outer })
      | some how => some (.ended w.origin w.serial w.ty how, { k with waits := outer })

def Step (k : Calls tk) (l : Label tk) (k' : Calls tk) : Prop :=
  ∃ event, k.perform event = some (l, k')

inductive Does (k : Calls tk) : Label tk → Calls tk → Prop where
  | invoked (origin : ServiceId) (serial : UInt32) (ty : tk.Ty) : k.running →
      Does k (.invoked origin serial ty) { k with requests := k.requests.invoke origin serial ty }
  | incoming (origin : ServiceId) (payload : List UInt8) : k.running →
      Does k (.incoming origin payload)
        { k with requests := k.requests.onIncomingData origin payload }
  | called (origin : ServiceId) (serial : UInt32) (ty : tk.Ty) : k.running →
      Does k (.called origin serial ty) { k with waits := { origin, serial, ty } :: k.waits }
  | arrived {w : Waiting tk} {outer : List (Waiting tk)} : k.waits = w :: outer →
      Does k .arrived { k with waits := { w with events := w.events + 1 } :: outer }
  | again {w : Waiting tk} {outer : List (Waiting tk)} : k.waits = w :: outer →
      w.polled k.requests = none →
      Does k (.again w.origin w.serial) { k with waits := { w with events := 0 } :: outer }
  | ended {w : Waiting tk} {outer : List (Waiting tk)} {how : Ending tk} : k.waits = w :: outer →
      w.polled k.requests = some how →
      Does k (.ended w.origin w.serial w.ty how) { k with waits := outer }

theorem Step.does {k k' : Calls tk} {l : Label tk} (step : Step k l k') : Does k l k' := by
  obtain ⟨event, performed⟩ := step
  cases event with
  | invoke origin serial ty =>
    simp only [perform, possible_iff] at performed
    obtain ⟨running, rfl, rfl⟩ := performed
    exact .invoked origin serial ty running
  | incoming origin payload =>
    simp only [perform, possible_iff] at performed
    obtain ⟨running, rfl, rfl⟩ := performed
    exact .incoming origin payload running
  | wait origin serial ty =>
    simp only [perform, possible_iff] at performed
    obtain ⟨running, rfl, rfl⟩ := performed
    exact .called origin serial ty running
  | arrive =>
    simp only [perform] at performed
    split at performed
    · contradiction
    · rename_i w outer waits
      obtain ⟨rfl, rfl⟩ := Prod.mk.inj (Option.some.inj performed)
      exact .arrived waits
  | polled =>
    simp only [perform] at performed
    split at performed
    · contradiction
    · rename_i w outer waits
      split at performed <;> rename_i outcome <;>
        obtain ⟨rfl, rfl⟩ := Prod.mk.inj (Option.some.inj performed)
      · exact .again waits outcome
      · exact .ended waits outcome

end Calls

namespace Session
variable {tk : Toolkit}

/-- What comes of reading a reply into a parser: the parser as it was read, or with what the
reading threw. -/
def settled (p : ResponseParser tk) : Except Str (ResponseParser tk) → ResponseParser tk
  | .ok p => p
  | .error text => p.setException text

theorem respond_entry (requests : Requests tk) (data : List UInt8)
    (read : ResponseParser tk → Nat → Except Str (ResponseParser tk)) (n : UInt32) :
    respond requests data read n =
      match responseSerial tk data with
      | .ok (serial, offset) =>
        if serial = n then (requests n).map fun p => settled p (read p offset) else requests n
      | .error _ => requests n := by
  unfold respond
  cases responseSerial tk data with
  | error e => rfl
  | ok pair =>
    obtain ⟨serial, offset⟩ := pair
    simp only
    by_cases same : serial = n
    · subst same
      rw [if_pos rfl]
      cases entry : requests serial with
      | none => simp [entry]
      | some p =>
        simp only [Function.update_self, Option.map_some, Option.some.injEq]
        cases read p offset <;> rfl
    · rw [if_neg same]
      cases requests serial with
      | none => rfl
      | some p => simp [Function.update_of_ne (Ne.symm same)]

end Session

namespace ResponseParser
variable {tk : Toolkit}

/-- The parser of a request once a reply to it has been processed. -/
def reply (p : ResponseParser tk) (payload : List UInt8) : ResponseParser tk :=
  match request tk payload with
  | .ok (.exception data) =>
    match responseSerial tk data with
    | .ok (_, offset) => settled p (p.setException <$> readException tk data offset)
    | .error _ => p
  | .ok (.result data) =>
    match responseSerial tk data with
    | .ok (_, offset) => settled p (p.parse data offset)
    | .error _ => p
  | _ => p

theorem reply_result (lawful : tk.Lawful) (p : ResponseParser tk) (serial : UInt32)
    (value : tk.Val p.ty) :
    p.reply (resultPayload tk serial ((tk.value p.ty).write value)) =
      { p with value, finished := true } := by
  have behind : (tk.u32.write serial ++ (tk.value p.ty).write value).drop
      (tk.u32.write serial).length = (tk.value p.ty).write value := List.drop_left
  rw [reply, request_result lawful]
  simp only [responseSerial_write lawful, parse, bind, Except.bind,
    Flat.Codec.readAt_written (lawful.value p.ty) behind]
  rfl

theorem reply_exception (lawful : tk.Lawful) (p : ResponseParser tk) (serial : UInt32)
    (what : Str) : p.reply (exceptionPayload tk serial what) = p.setException what := by
  rw [reply, request_exception lawful]
  simp only [responseSerial_write lawful, readException_write lawful]
  rfl

end ResponseParser

namespace RequestTable
variable {tk : Toolkit}

theorem invoke_entry (t : RequestTable tk) (origin o : ServiceId) (serial n : UInt32)
    (ty : tk.Ty) :
    t.invoke origin serial ty o n =
      if origin = o ∧ serial = n then some (.new ty) else t o n := by
  by_cases here : origin = o
  · subst here
    by_cases same : serial = n
    · subst same
      simp [invoke]
    · simp [invoke, same, Function.update_of_ne (Ne.symm same)]
  · simp [invoke, here, Function.update_of_ne (Ne.symm here)]

/-- A frame touches the entry it answers and no other. -/
theorem onIncomingData_entry (t : RequestTable tk) (origin o : ServiceId) (payload : List UInt8)
    (n : UInt32) :
    t.onIncomingData origin payload o n =
      if origin = o ∧ answered tk payload = some n then (t o n).map fun p => p.reply payload
      else t o n := by
  unfold onIncomingData answered
  simp only [ResponseParser.reply]
  by_cases here : origin = o
  · subst here
    cases request tk payload with
    | error e => simp
    | ok r =>
      cases r with
      | invoke data => simp
      | exception data =>
        simp only [Function.update_self, onIncomingException, respond_entry, true_and]
        cases responseSerial tk data <;> simp [Except.toOption]
      | result data =>
        simp only [Function.update_self, onIncomingResult, respond_entry, true_and]
        cases responseSerial tk data <;> simp [Except.toOption]
  · simp only [here, false_and, if_false]
    cases request tk payload with
    | error e => rfl
    | ok r => cases r <;> simp [Function.update_of_ne (Ne.symm here)]

end RequestTable

namespace Calls
variable {tk : Toolkit}

/-- What one step says about the request for which `Invoke(origin, ...)` returned `serial`:
the type of its value, and the replies to it that have been processed. -/
def Label.track (origin : ServiceId) (serial : UInt32)
    (known : Option (tk.Ty × List (List UInt8))) : Label tk → Option (tk.Ty × List (List UInt8))
  | .invoked o n ty => if o = origin ∧ n = serial then some (ty, []) else known
  | .incoming o payload =>
    if o = origin ∧ answered tk payload = some serial then
      known.map fun (ty, replies) => (ty, replies ++ [payload])
    else known
  | _ => known

/-- The last request for which `Invoke(origin, ...)` returned `serial`, and its replies. -/
def asked (origin : ServiceId) (serial : UInt32) (past : List (Label tk)) :
    Option (tk.Ty × List (List UInt8)) :=
  past.foldl (Label.track origin serial) none

theorem asked_append (origin : ServiceId) (serial : UInt32) (past : List (Label tk))
    (l : Label tk) :
    asked origin serial (past ++ [l]) = l.track origin serial (asked origin serial past) := by
  simp [asked]

def parser (request : tk.Ty × List (List UInt8)) : ResponseParser tk :=
  request.2.foldl ResponseParser.reply (.new request.1)

/-- The table holds the parsers of all requests ever made. -/
theorem requests_eq {k : Calls tk} {past : List (Label tk)} (run : Reaches Step {} past k)
    (o : ServiceId) (n : UInt32) : k.requests o n = (asked o n past).map parser := by
  refine run.history (P := fun past k => k.requests o n = (asked o n past).map parser) ?_ rfl
  intro past k l k' before step
  rw [asked_append]
  cases step.does with
  | invoked origin serial ty running =>
    simp only [RequestTable.invoke_entry, before, Label.track]
    split <;> rfl
  | incoming origin payload running =>
    simp only [RequestTable.onIncomingData_entry, before, Label.track]
    split
    · cases asked o n past with
      | none => rfl
      | some request => simp [parser]
    · rfl
  | called | arrived | again | ended => exact before

theorem Label.track_isSome (o : ServiceId) (n : UInt32) (l : Label tk)
    (known : Option (tk.Ty × List (List UInt8))) :
    (l.track o n known).isSome ↔ known.isSome ∨ ∃ ty, l = .invoked o n ty := by
  cases l with
  | invoked origin serial ty =>
    simp only [track, invoked.injEq]
    split <;> simp_all
  | incoming origin payload =>
    simp only [track]
    split <;> simp
  | called | arrived | again | ended => simp [track]

/-- The table has an entry for everything `Invoke` ever returned. -/
theorem entry_iff {k : Calls tk} {past : List (Label tk)} (run : Reaches Step {} past k)
    (o : ServiceId) (n : UInt32) : (k.requests o n).isSome ↔ ∃ ty, .invoked o n ty ∈ past := by
  rw [requests_eq run, Option.isSome_map]
  clear run
  induction past using List.reverseRecOn with
  | nil => simp [asked]
  | append_singleton past l ih =>
    rw [asked_append, Label.track_isSome, ih]
    simp [exists_or, eq_comm]

/-- `Invoke(origin, ...)` returned `serial`, and no `Wait` for it has ended since. -/
def Open (past : List (Label tk)) (origin : ServiceId) (serial : UInt32) : Prop :=
  ∃ before ty after, past = before ++ .invoked origin serial ty :: after ∧
    ∀ ty' how, .ended origin serial ty' how ∉ after

/-- The table has entries for open calls only. -/
def OnlyOpen (past : List (Label tk)) (k : Calls tk) : Prop :=
  ∀ origin serial, (k.requests origin serial).isSome → Open past origin serial

theorem not_open_ended (past : List (Label tk)) (o : ServiceId) (n : UInt32) (ty : tk.Ty)
    (how : Ending tk) : ¬ Open (past ++ [.ended o n ty how]) o n := by
  rintro ⟨before, asked, after, split, never⟩
  rcases List.eq_nil_or_concat after with rfl | ⟨after, last, rfl⟩
  · have last := (List.append_inj' split rfl).2
    simp at last
  · rw [List.concat_eq_append, ← List.cons_append, ← List.append_assoc] at split
    obtain rfl := List.singleton_inj.mp (List.append_inj' split rfl).2
    exact never ty how (by simp)

end Calls
open Calls

/-- In every state of a run the table holds only open calls, exactly if no `Wait` for a
request that was made has ended. -/
theorem only_open_iff {tk : Toolkit} {k : Calls tk} {hist : List (Calls.Label tk)}
    (run : Reaches Step {} hist k) :
    (∀ past k', past <+: hist → Reaches Step {} past k' → OnlyOpen past k') ↔
      ∀ past origin serial ty how, past ++ [.ended origin serial ty how] <+: hist →
        ∀ ty', .invoked origin serial ty' ∉ past := by
  constructor
  · intro holds past o n ty how here ty' invoked
    obtain ⟨rest, rfl⟩ := here
    obtain ⟨k', reached, _⟩ := run.split
    have entry := (entry_iff reached o n).mpr ⟨ty', List.mem_append_left _ invoked⟩
    exact not_open_ended past o n ty how (holds _ k' (List.prefix_append _ _) reached o n entry)
  · intro never past k' here reached o n entry
    obtain ⟨ty, invoked⟩ := (entry_iff reached o n).mp entry
    obtain ⟨before, after, rfl⟩ := List.append_of_mem invoked
    refine ⟨before, ty, after, rfl, fun ty' how ended => ?_⟩
    obtain ⟨middle, rest, rfl⟩ := List.append_of_mem ended
    refine never (before ++ .invoked o n ty :: middle) o n ty' how ?_ ty (by simp)
    refine List.IsPrefix.trans ⟨rest, ?_⟩ here
    simp

/-- As long as the one call is not over, the table is as it should be. -/
theorem only_open_waiting :
    let hist : List (Calls.Label .plain) :=
      [.invoked ⟨['a'], 1⟩ 0 true, .called ⟨['a'], 1⟩ 0 true, .arrived]
    ∀ past k', past <+: hist → Reaches Step {} past k' → OnlyOpen past k' := by
  intro hist
  have run : Reaches Step {} hist _ := .next ⟨.invoke ⟨['a'], 1⟩ 0 true, rfl⟩
    (.next ⟨.wait ⟨['a'], 1⟩ 0 true, rfl⟩ (.next ⟨.arrive, rfl⟩ (.refl _)))
  refine (only_open_iff run).mpr fun past o n ty how here => ?_
  exact absurd (here.subset (List.mem_append_right past List.mem_cons_self)) (by simp [hist])

/-- A request for a number is answered and collected. Its entry stays, and a second answer is
read into it. -/
theorem collected_stays :
    let o : ServiceId := ⟨['a'], 1⟩
    let first := resultPayload .plain 0 (Toolkit.plain.u32.write 5)
    let second := resultPayload .plain 0 (Toolkit.plain.u32.write 6)
    ∃ k : Calls .plain,
      Reaches Step {} [.invoked o 0 true, .called o 0 true, .arrived, .incoming o first,
        .ended o 0 true (.collected (.value true (5 : UInt32)))] k ∧
      ¬ OnlyOpen [.invoked o 0 true, .called o 0 true, .arrived, .incoming o first,
        .ended o 0 true (.collected (.value true (5 : UInt32)))] k ∧
      ∃ k', Reaches Step k [.incoming o second, .called o 0 true, .arrived,
        .ended o 0 true (.collected (.value true (6 : UInt32)))] k' := by
  intro o first second
  refine ⟨_, .next ⟨.invoke o 0 true, rfl⟩ (.next ⟨.wait o 0 true, rfl⟩ (.next ⟨.arrive, rfl⟩
    (.next ⟨.incoming o first, rfl⟩ (.next ⟨.polled, rfl⟩ (.refl _))))), ?_, _,
    .next ⟨.incoming o second, rfl⟩ (.next ⟨.wait o 0 true, rfl⟩ (.next ⟨.arrive, rfl⟩
    (.next ⟨.polled, rfl⟩ (.refl _))))⟩
  intro only
  have closed := @not_open_ended .plain
    [.invoked o 0 true, .called o 0 true, .arrived, .incoming o first] o 0 true
    (.collected (.value true (5 : UInt32)))
  exact closed (only o 0 rfl)

end PBus
