import PBus.Toolkit

/-! The messages of `Session`: the payloads it builds, and how `OnIncomingData` and the
functions it calls take them apart. -/
namespace PBus
variable (tk : Toolkit)

/-- `ClassId::Write`. -/
def ClassId.write (c : ClassId) : List UInt8 := tk.string.write c.name ++ tk.u32.write c.version

/-- `ObjectId::Write`. -/
def ObjectId.write (o : ObjectId) : List UInt8 := o.type.write tk ++ tk.u32.write o.id

namespace Session

def requestInvoke : UInt8 := 0
def requestRelease : UInt8 := 5
def responseResult : UInt8 := 6
def responseException : UInt8 := 7

/-- What `Invoke` has `MakeRequest` serialize; `args` are the serialized arguments. -/
def invokePayload (objectId : ObjectId) (methodName : Str) (args : List UInt8) : List UInt8 :=
  tk.u8.write requestInvoke ++ (objectId.write tk ++ (tk.string.write methodName ++ args))

/-- What `Release` has `MakeRequest` serialize. -/
def releasePayload (objectId : ObjectId) : List UInt8 :=
  tk.u8.write requestRelease ++ objectId.write tk

/-- What `OnIncomingInvoke` sends back; `value` is what `__pbus__invoke` wrote. -/
def resultPayload (serial : UInt32) (value : List UInt8) : List UInt8 :=
  tk.u8.write responseResult ++ (tk.u32.write serial ++ value)

/-- What `ThrowException` has `MakeRequest` serialize. -/
def exceptionPayload (serial : UInt32) (what : Str) : List UInt8 :=
  tk.u8.write responseException ++
    (tk.u32.write serial ++ (tk.string.write "Exception".toList ++ tk.string.write what))

/-- The branches of `OnIncomingData`, with the data behind the request type. -/
inductive Request where
  | invoke (data : List UInt8)
  | exception (data : List UInt8)
  | result (data : List UInt8)
  deriving DecidableEq, Repr

def request (data : List UInt8) : Except Str Request := do
  let (request, offset) ← tk.u8.readAt data 0
  if request = requestInvoke then return .invoke (data.drop offset)
  else if request = responseException then return .exception (data.drop offset)
  else if request = responseResult then return .result (data.drop offset)
  else throw ("unhandled request ".toList ++ Nat.toDigits 10 request.toNat)

structure Invocation where
  id : ObjectId
  methodName : Str
  args : List UInt8
  deriving DecidableEq, Repr

/-- How `OnIncomingInvoke` reads a request. -/
def readInvocation (data : List UInt8) : Except Str Invocation := do
  let (classType, offset) ← tk.string.readAt data 0
  let (classVersion, offset) ← tk.u32.readAt data offset
  let (objectId, offset) ← tk.u32.readAt data offset
  let type ← ClassId.new classType classVersion
  let (methodName, offset) ← tk.string.readAt data offset
  return ⟨⟨type, objectId⟩, methodName, data.drop offset⟩

/-- The start of `OnIncomingResult` and `OnIncomingException`: the serial of the request that
is answered, and the offset behind it. -/
def responseSerial (data : List UInt8) : Except Str (UInt32 × Nat) := tk.u32.readAt data 0

/-- The rest of `OnIncomingException`: the text of the exception. -/
def readException (data : List UInt8) (offset : Nat) : Except Str Str := do
  let (_exceptionType, offset) ← tk.string.readAt data offset
  let (exceptionArg1, _offset) ← tk.string.readAt data offset
  return exceptionArg1

/-- The request whose parser a payload goes to, if it is a response. -/
def answered (payload : List UInt8) : Option UInt32 :=
  match request tk payload with
  | .ok (.result data) | .ok (.exception data) => (responseSerial tk data).toOption.map Prod.fst
  | _ => none

/-- `Invoke` made this payload. -/
def isInvoke (payload : List UInt8) : Bool :=
  match request tk payload with
  | .ok (.invoke _) => true
  | _ => false

variable {tk}
open Flat

theorem request_write (lawful : tk.Lawful) (type : UInt8) (rest : List UInt8) :
    request tk (tk.u8.write type ++ rest) =
      if type = requestInvoke then .ok (.invoke rest)
      else if type = responseException then .ok (.exception rest)
      else if type = responseResult then .ok (.result rest)
      else .error ("unhandled request ".toList ++ Nat.toDigits 10 type.toNat) := by
  have first : (tk.u8.write type ++ rest).drop 0 = tk.u8.write type ++ rest := rfl
  have behind := drop_written first
  simp only [request, Codec.readAt_write lawful.u8 first, behind, bind, Except.bind]
  rfl

theorem request_invoke (lawful : tk.Lawful) (o : ObjectId) (method : Str) (args : List UInt8) :
    request tk (invokePayload tk o method args) =
      .ok (.invoke (o.write tk ++ (tk.string.write method ++ args))) := by
  rw [invokePayload, request_write lawful]
  rfl

theorem request_release (lawful : tk.Lawful) (o : ObjectId) :
    request tk (releasePayload tk o) = .error "unhandled request 5".toList := by
  rw [releasePayload, request_write lawful]
  rfl

theorem request_result (lawful : tk.Lawful) (serial : UInt32) (value : List UInt8) :
    request tk (resultPayload tk serial value) = .ok (.result (tk.u32.write serial ++ value)) := by
  rw [resultPayload, request_write lawful]
  rfl

theorem request_exception (lawful : tk.Lawful) (serial : UInt32) (what : Str) :
    request tk (exceptionPayload tk serial what) =
      .ok (.exception (tk.u32.write serial ++
        (tk.string.write "Exception".toList ++ tk.string.write what))) := by
  rw [exceptionPayload, request_write lawful]
  rfl

/-- The header of an invoke comes back as the class constructor makes it. -/
theorem readInvocation_write (lawful : tk.Lawful) (o : ObjectId) (method : Str)
    (args : List UInt8) :
    readInvocation tk (o.write tk ++ (tk.string.write method ++ args)) =
      (ClassId.new o.type.name o.type.version).map fun type => ⟨⟨type, o.id⟩, method, args⟩ := by
  have name : (o.write tk ++ (tk.string.write method ++ args)).drop 0 =
      tk.string.write o.type.name ++ (tk.u32.write o.type.version ++
        (tk.u32.write o.id ++ (tk.string.write method ++ args))) := by
    simp [ObjectId.write, ClassId.write]
  have version := drop_written name
  have id := drop_written version
  have methodName := drop_written id
  have rest := drop_written methodName
  simp only [readInvocation, bind, Except.bind, Codec.readAt_write lawful.string name,
    Codec.readAt_write lawful.u32 version, Codec.readAt_write lawful.u32 id]
  cases ClassId.new o.type.name o.type.version with
  | error e => rfl
  | ok type =>
    simp only [Codec.readAt_write lawful.string methodName, rest]
    rfl

theorem responseSerial_write (lawful : tk.Lawful) (serial : UInt32) (rest : List UInt8) :
    responseSerial tk (tk.u32.write serial ++ rest) =
      .ok (serial, (tk.u32.write serial).length) := by
  have first : (tk.u32.write serial ++ rest).drop 0 = tk.u32.write serial ++ rest := rfl
  rw [responseSerial, Codec.readAt_write lawful.u32 first, Nat.zero_add]

theorem answered_result (lawful : tk.Lawful) (serial : UInt32) (value : List UInt8) :
    answered tk (resultPayload tk serial value) = some serial := by
  simp only [answered, request_result lawful, responseSerial_write lawful]
  rfl

theorem answered_exception (lawful : tk.Lawful) (serial : UInt32) (what : Str) :
    answered tk (exceptionPayload tk serial what) = some serial := by
  simp only [answered, request_exception lawful, responseSerial_write lawful]
  rfl

theorem readException_write (lawful : tk.Lawful) (before : List UInt8) (type what : Str) :
    readException tk (before ++ (tk.string.write type ++ tk.string.write what)) before.length =
      .ok what := by
  have first : (before ++ (tk.string.write type ++ tk.string.write what)).drop before.length =
      tk.string.write type ++ (tk.string.write what ++ []) := by simp
  have second := drop_written first
  simp only [readException, bind, Except.bind, Codec.readAt_write lawful.string first,
    Codec.readAt_write lawful.string second]
  rfl

end Session
end PBus
