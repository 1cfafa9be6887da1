import PBus.Link.Delivery
import PBus.Session.Messages

/-! Two sessions joined by one link: `Invoke`, `Release` and `Wait` on either side, and what
`OnIncomingData` makes of the frames handed over. The table `_requests` leads from the serial
`Send` returned to the parser of the response. -/
namespace PBus
open Transition Connection

/-- `ResponseParser<ty>`. -/
structure ResponseParser (tk : Toolkit) where
  ty : tk.Ty
  value : tk.Val ty
  exception : Option Str := none
  finished : Bool := false

/-- How `Wait` ends once the response is there. -/
inductive Waited (tk : Toolkit) where
  | value (ty : tk.Ty) (value : tk.Val ty)
  | rethrown (text : Str)
  | mismatched

/-- What a request led to on the other side: a value a method returned, or the text of an
exception. -/
abbrev Outcome (tk : Toolkit) := Except Str ((ty : tk.Ty) × tk.Val ty)

namespace ResponseParser
variable {tk : Toolkit}

def new (ty : tk.Ty) : ResponseParser tk := { ty, value := tk.initial ty }

def setException (p : ResponseParser tk) (text : Str) : ResponseParser tk :=
  { p with exception := some text, finished := true }

def parse (p : ResponseParser tk) (data : List UInt8) (offset : Nat) :
    Except Str (ResponseParser tk) := do
  let (value, _offset) ← (tk.value p.ty).readAt data offset
  return { p with value, finished := true }

/-- The end of `Wait<ty>`: the stored exception, or the value if `ty` is the type of the parser. -/
def wait (p : ResponseParser tk) (ty : tk.Ty) : Waited tk :=
  match p.exception with
  | some text => .rethrown text
  | none => if p.ty = ty then .value p.ty p.value else .mismatched

end ResponseParser

namespace Session
variable {tk : Toolkit}

abbrev Requests (tk : Toolkit) := UInt32 → Option (ResponseParser tk)

/-- Find the parser of a response and let `read` have it; what `read` throws is stored. -/
def respond (requests : Requests tk) (data : List UInt8)
    (read : ResponseParser tk → Nat → Except Str (ResponseParser tk)) : Requests tk :=
  match responseSerial tk data with
  | .error _ => requests
  | .ok (serial, offset) =>
    match requests serial with
    | none => requests
    | some parser => Function.update requests serial
        (some (match read parser offset with
          | .ok parser => parser
          | .error text => parser.setException text))

def onIncomingException (requests : Requests tk) (data : List UInt8) : Requests tk :=
  respond requests data fun parser offset => parser.setException <$> readException tk data offset

def onIncomingResult (requests : Requests tk) (data : List UInt8) : Requests tk :=
  respond requests data fun parser offset => parser.parse data offset

/-- What comes of a payload that asks for an answer if the method, once called, ends with
`result`. A response asks for none. -/
def handle (tk : Toolkit) (payload : List UInt8) (result : Outcome tk) : Option (Outcome tk) :=
  match request tk payload with
  | .ok (.invoke data) =>
    match readInvocation tk data with
    | .ok _ => some result
    | .error text => some (.error text)
  | .error text => some (.error text)
  | .ok (.exception _) | .ok (.result _) => none

def answerPayload (serial : UInt32) : Outcome tk → List UInt8
  | .ok ⟨ty, value⟩ => resultPayload tk serial ((tk.value ty).write value)
  | .error text => exceptionPayload tk serial text

end Session
open Session

/-- `requests s` is `_requests` for the other side; `current s` is the invoke or the
unreadable request that `s` is handling, with its serial. -/
structure Rpc (tk : Toolkit) where
  link : Link
  requests : Side → Requests tk := fun _ _ => none
  current : Side → Option (UInt32 × List UInt8) := fun _ => none

namespace Rpc
variable {tk : Toolkit}

inductive Label (tk : Toolkit) where
  /-- `Invoke<ty>` returned `serial`. -/
  | invoked (side : Side) (serial : UInt32) (ty : tk.Ty) (payload : List UInt8)
  | released (side : Side) (serial : UInt32) (payload : List UInt8)
  /-- A socket event, a handler that returned, or a `Send` that threw. -/
  | moved (side : Side) (l : Connection.Label UInt8)
  /-- The payload handed over under `asked` was handled, and the answer sent under `serial`. -/
  | answered (side : Side) (asked : UInt32) (payload : List UInt8) (outcome : Outcome tk)
      (serial : UInt32)
  | waited (side : Side) (serial : UInt32) (result : Waited tk)

def Label.link : Label tk → Option (Side × Connection.Label UInt8)
  | .invoked side serial _ payload | .released side serial payload =>
    some (side, .sent serial (frame payload))
  | .moved side l => some (side, l)
  | .answered side asked _ outcome serial =>
    some (side, .sent serial (frame (answerPayload asked outcome)))
  | .waited _ _ _ => none

/-- `OnIncomingData` is called with a payload: a response is stored at once, anything else
waits for its answer. -/
def onIncomingData (k : Rpc tk) (side : Side) (d : Dispatch UInt8) : Rpc tk :=
  match request tk d.payload with
  | .ok (.exception data) => { k with
      requests := Function.update k.requests side (onIncomingException (k.requests side) data) }
  | .ok (.result data) => { k with
      requests := Function.update k.requests side (onIncomingResult (k.requests side) data) }
  | .ok (.invoke _) | .error _ => { k with
      current := Function.update k.current side (some (d.serial, d.payload)) }

/-- The steps. A method may use `Invoke` and `Release` but does not poll: the loop goes on
only when there is nothing to answer. -/
inductive Step : Rpc tk → Label tk → Rpc tk → Prop where
  | invoke {k : Rpc tk} {link : Link} (side : Side) (serial : UInt32) (ty : tk.Ty) (o : ObjectId)
      (method : Str) (args : List UInt8) :
      Link.Step k.link (side, .sent serial (frame (invokePayload tk o method args))) link →
      Step k (.invoked side serial ty (invokePayload tk o method args)) { k with
        link, requests := Function.update k.requests side
          (Function.update (k.requests side) serial (some (.new ty))) }
  | release {k : Rpc tk} {link : Link} (side : Side) (serial : UInt32) (o : ObjectId) :
      Link.Step k.link (side, .sent serial (frame (releasePayload tk o))) link →
      Step k (.released side serial (releasePayload tk o)) { k with link }
  | event {k : Rpc tk} {link : Link} {side : Side} {l : Connection.Label UInt8} :
      Link.Step k.link (side, l) link → l.sentData = [] → l.dispatched = [] →
      (∀ d, l = .handled d → k.current side = none) → Step k (.moved side l) { k with link }
  | dispatch {k : Rpc tk} {link : Link} {side : Side} {l : Connection.Label UInt8}
      {d : Dispatch UInt8} : Link.Step k.link (side, l) link → l.dispatched = [d] →
      k.current side = none →
      Step k (.moved side l) (onIncomingData { k with link } side d)
  | answer {k : Rpc tk} {link : Link} {side : Side} {asked serial : UInt32}
      {payload : List UInt8} {result outcome : Outcome tk} :
      k.current side = some (asked, payload) → handle tk payload result = some outcome →
      Link.Step k.link (side, .sent serial (frame (answerPayload asked outcome))) link →
      Step k (.answered side asked payload outcome serial)
        { k with link, current := Function.update k.current side none }
  | lost {k : Rpc tk} {link : Link} {side : Side} {data : List UInt8} :
      (k.current side).isSome → Link.Step k.link (side, .refused data) link →
      Step k (.moved side (.refused data))
        { k with link, current := Function.update k.current side none }
  | wait {k : Rpc tk} {side : Side} {serial : UInt32} {parser : ResponseParser tk} (ty : tk.Ty) :
      k.requests side serial = some parser → parser.finished = true →
      Step k (.waited side serial (parser.wait ty)) k

inductive Event (tk : Toolkit) where
  | invoke (side : Side) (ty : tk.Ty) (o : ObjectId) (method : Str) (args : List UInt8)
  | release (side : Side) (o : ObjectId)
  | move (side : Side) (event : Endpoint.Event UInt8)
  | answer (side : Side) (result : Outcome tk)
  | wait (side : Side) (serial : UInt32) (ty : tk.Ty)

/-- `Send` on one side, if it does not throw. -/
def send (k : Link) (side : Side) (data : List UInt8) : Option (UInt32 × Link) :=
  match (k.ends side).send data true with
  | (e, some serial) => some (serial, k.after side (.sent serial data) e (k.wire side.other))
  | (_, none) => none

def perform (k : Rpc tk) : Event tk → Option (Label tk × Rpc tk)
  | .invoke side ty o method args =>
    (send k.link side (frame (invokePayload tk o method args))).map fun (serial, link) =>
      (.invoked side serial ty (invokePayload tk o method args), { k with
        link, requests := Function.update k.requests side
          (Function.update (k.requests side) serial (some (.new ty))) })
  | .release side o =>
    (send k.link side (frame (releasePayload tk o))).map fun (serial, link) =>
      (.released side serial (releasePayload tk o), { k with link })
  | .move side event =>
    match k.link.perform (side, event) with
    | some ((side, l), link) =>
      if (k.current side).isSome ∨ l.sentData ≠ [] then none
      else match l.dispatched with
        | [] => some (.moved side l, { k with link })
        | [d] => some (.moved side l, onIncomingData { k with link } side d)
        | _ => none
    | none => none
  | .answer side result =>
    match k.current side with
    | some (asked, payload) =>
      match handle tk payload result with
      | some outcome =>
        (send k.link side (frame (answerPayload asked outcome))).map fun (serial, link) =>
          (.answered side asked payload outcome serial,
            { k with link, current := Function.update k.current side none })
      | none => none
    | none => none
  | .wait side serial ty =>
    match k.requests side serial with
    | some parser =>
      if parser.finished then some (.waited side serial (parser.wait ty), k) else none
    | none => none

theorem send_moves {k link : Link} {side : Side} {data : List UInt8} {serial : UInt32}
    (sent : send k side data = some (serial, link)) :
    Link.Step k (side, .sent serial data) link := by
  unfold send at sent
  split at sent
  · rename_i done
    simp only [Option.some.injEq, Prod.mk.injEq] at sent
    obtain ⟨rfl, rfl⟩ := sent
    exact .at (.sent done) rfl
  · contradiction

theorem perform_step {k k' : Rpc tk} {l : Label tk} {event : Event tk}
    (performed : k.perform event = some (l, k')) : Step k l k' := by
  cases event with
  | invoke side ty o method args =>
    simp only [perform, Option.map_eq_some_iff, Prod.mk.injEq] at performed
    obtain ⟨⟨serial, link⟩, sent, rfl, rfl⟩ := performed
    exact .invoke side serial ty o method args (send_moves sent)
  | release side o =>
    simp only [perform, Option.map_eq_some_iff, Prod.mk.injEq] at performed
    obtain ⟨⟨serial, link⟩, sent, rfl, rfl⟩ := performed
    exact .release side serial o (send_moves sent)
  | move side event =>
    cases moved : k.link.perform (side, event) with
    | none => simp [perform, moved] at performed
    | some pair =>
      obtain ⟨⟨side', l'⟩, link⟩ := pair
      simp only [perform, moved, Option.ite_none_left_eq_some, not_or,
        Option.not_isSome_iff_eq_none, Decidable.not_not] at performed
      obtain ⟨⟨idle, silent⟩, performed⟩ := performed
      have step := Link.perform_step moved
      split at performed
      · rename_i dispatched
        simp only [Option.some.injEq, Prod.mk.injEq] at performed
        obtain ⟨rfl, rfl⟩ := performed
        exact .event step silent dispatched fun _ _ => idle
      · rename_i d dispatched
        simp only [Option.some.injEq, Prod.mk.injEq] at performed
        obtain ⟨rfl, rfl⟩ := performed
        exact .dispatch step dispatched idle
      · contradiction
  | answer side result =>
    simp only [perform] at performed
    split at performed
    · rename_i asked payload busy
      split at performed
      · rename_i outcome handled
        simp only [Option.map_eq_some_iff, Prod.mk.injEq] at performed
        obtain ⟨⟨serial, link⟩, sent, rfl, rfl⟩ := performed
        exact .answer busy handled (send_moves sent)
      · contradiction
    · contradiction
  | wait side serial ty =>
    simp only [perform] at performed
    split at performed
    · rename_i parser found
      simp only [possible_iff] at performed
      obtain ⟨done, rfl, rfl⟩ := performed
      exact .wait ty found done
    · contradiction

end Rpc
end PBus
