import PBus.Connection.Basic
import PBus.Foundation.Transition

/-! One `LocalBusConnection` over its whole life: everything its owner and the poll can do
to it, in any order and nested to any depth. `HandleSocketEvent` is cut where control can
leave it, at the call of `OnIncomingData`: the handler may run the poll again, so that the
same connection gets further events before the handler returns. -/
namespace PBus.Connection

/-- A call of `HandleSocketEvent` suspended in `OnIncomingData`: the socket its buffer was
read from and the part of the buffer behind the frame being handled. -/
structure Activation (β : Type) where
  socket : SocketId
  rest : List β

/-- The connection, the suspended calls, innermost first, and the number of the next socket. -/
structure Endpoint (β : Type) [Cell β] where
  conn : LocalBusConnection β
  stack : List (Activation β) := []
  nextSocket : SocketId := 0

inductive Label (β : Type) [Cell β] where
  /-- `Send` returned a serial. -/
  | sent (serial : UInt32) (data : List β)
  /-- `Send` threw. -/
  | refused (data : List β)
  | wrote (socket : SocketId) (bytes : List β)
  | hungUp
  /-- Bytes arrived, `nested` in the handling of a frame or not, and led to a dispatch or not. -/
  | read (socket : SocketId) (nested : Bool) (bytes : List β) (dispatch : Option (Dispatch β))
  /-- The innermost handler returned and the loop behind it went on. -/
  | handled (dispatch : Option (Dispatch β))

namespace Endpoint
variable {β : Type} [Cell β]

/-- A connection as either constructor leaves it. -/
inductive Started : Endpoint β → Prop where
  | outgoing (serviceId : ServiceId) : Started { conn := .create serviceId }
  | accepted (serviceId : ServiceId) (socket : SocketId) :
      Started { conn := .accept serviceId socket, nextSocket := socket + 1 }

def send (e : Endpoint β) (data : List β) (connects : Bool) : Endpoint β × Option UInt32 :=
  let (conn, serial) := e.conn.send data ⟨e.nextSocket, connects⟩
  ({ e with conn, nextSocket := e.nextSocket + 1 }, serial)

def output (e : Endpoint β) (n : Nat) : List β × Endpoint β :=
  let (written, conn) := e.conn.output n
  (written, { e with conn })

def hangup (e : Endpoint β) : Endpoint β := { e with conn := e.conn.hangup }

/-- Enter or go on with the loop over `data`; a dispatch suspends it. -/
def loop (e : Endpoint β) (socket : SocketId) (data : List β) : Endpoint β × Option (Dispatch β) :=
  match e.conn.scan socket data with
  | (conn, none) => ({ e with conn }, none)
  | (conn, some (dispatch, rest)) =>
    ({ e with conn, stack := ⟨socket, rest⟩ :: e.stack }, some dispatch)

/-- The handler of the innermost suspended call returns. -/
def handled (e : Endpoint β) : Option (Endpoint β × Option (Dispatch β)) :=
  match e.stack with
  | [] => none
  | top :: below =>
    some (loop { e with conn := e.conn.resetRead, stack := below } top.socket top.rest)

inductive Step : Endpoint β → Label β → Endpoint β → Prop where
  | sent : e.send data connects = (e', some serial) → Step e (.sent serial data) e'
  | refused : e.send data connects = (e', none) → Step e (.refused data) e'
  | wrote : e.conn.socket = some socket → e.conn.interest.isSome → e.output n = (bytes, e') →
      Step e (.wrote socket bytes) e'
  | hungUp : e.conn.interest.isSome → Step e .hungUp e.hangup
  | read : e.conn.socket = some socket → e.conn.interest.isSome → bytes ≠ [] →
      bytes.length ≤ readBufferSize → e.loop socket bytes = (e', dispatch) →
      Step e (.read socket (!e.stack.isEmpty) bytes dispatch) e'
  | handled : e.handled = some (e', dispatch) → Step e (.handled dispatch) e'

/-- What can happen to a connection. -/
inductive Event (β : Type) where
  | send (data : List β) (connects : Bool)
  | output (n : Nat)
  | hangup
  | input (bytes : List β)
  | returned

/-- The step an event leads to, if the event is possible. -/
def perform (e : Endpoint β) : Event β → Option (Label β × Endpoint β)
  | .send data connects =>
    match e.send data connects with
    | (e', some serial) => some (.sent serial data, e')
    | (e', none) => some (.refused data, e')
  | .output n =>
    match e.conn.socket with
    | some socket =>
      if e.conn.interest.isSome then some (.wrote socket (e.output n).1, (e.output n).2) else none
    | none => none
  | .hangup => if e.conn.interest.isSome then some (.hungUp, e.hangup) else none
  | .input bytes =>
    match e.conn.socket with
    | some socket =>
      if e.conn.interest.isSome ∧ bytes ≠ [] ∧ bytes.length ≤ readBufferSize then
        some (.read socket (!e.stack.isEmpty) bytes (e.loop socket bytes).2,
          (e.loop socket bytes).1)
      else none
    | none => none
  | .returned => e.handled.map fun (e', dispatch) => (.handled dispatch, e')

theorem perform_step {e e' : Endpoint β} {l : Label β} {event : Event β}
    (performed : e.perform event = some (l, e')) : Step e l e' := by
  cases event with
  | send data connects =>
    cases sent : e.send data connects with
    | mk e'' serial =>
      cases serial <;> simp only [perform, sent, Option.some.injEq, Prod.mk.injEq] at performed <;>
        obtain ⟨rfl, rfl⟩ := performed
      · exact .refused sent
      · exact .sent sent
  | output n =>
    cases socket : e.conn.socket with
    | none => simp [perform, socket] at performed
    | some s =>
      simp only [perform, socket, Transition.possible_iff] at performed
      obtain ⟨registered, rfl, rfl⟩ := performed
      exact .wrote socket registered rfl
  | hangup =>
    simp only [perform, Transition.possible_iff] at performed
    obtain ⟨registered, rfl, rfl⟩ := performed
    exact .hungUp registered
  | input bytes =>
    cases socket : e.conn.socket with
    | none => simp [perform, socket] at performed
    | some s =>
      simp only [perform, socket, Transition.possible_iff] at performed
      obtain ⟨⟨registered, given, small⟩, rfl, rfl⟩ := performed
      exact .read socket registered given small rfl
  | returned =>
    simp only [perform, Option.map_eq_some_iff, Prod.mk.injEq] at performed
    obtain ⟨⟨e'', dispatch⟩, done, rfl, rfl⟩ := performed
    exact .handled done

theorem played (C : List (Label β) → Endpoint β → Label β → Prop)
    [∀ past e l, Decidable (C past e l)] (start : Endpoint β) (events : List (Event β)) :
    Transition.Guarded Step C start (Transition.play perform C [] start events).1
      (Transition.play perform C [] start events).2 :=
  Transition.play_guarded perform C perform_step .start events

theorem send_eq (e : Endpoint β) (data : List β) (connects : Bool) :
    e.send data connects =
      ({ e with
          conn := (e.conn.send data ⟨e.nextSocket, connects⟩).1, nextSocket := e.nextSocket + 1 },
        (e.conn.send data ⟨e.nextSocket, connects⟩).2) := rfl

theorem output_eq (e : Endpoint β) (n : Nat) :
    e.output n = ((e.conn.output n).1, { e with conn := (e.conn.output n).2 }) := rfl

/-- The socket a `Send` finds or makes. -/
def Opens (e : Endpoint β) (socket : SocketId) : Prop :=
  e.conn.socket = some socket ∨ e.conn.socket = none ∧ socket = e.nextSocket

theorem send_cases {e e' : Endpoint β} (done : e.send data connects = (e', serial)) :
    ∃ socket, e.Opens socket ∧
      ((e.conn.socket.isSome → e.conn.interest.isSome) ∧
        serial = some e.conn.writeSerial ∧ e' = { e with
        conn := { e.conn with
          socket := some socket, interest := some true,
          writeQueue := e.conn.writeQueue ++ [⟨data, 0⟩],
          writeSerial := e.conn.writeSerial + 1 }
        nextSocket := e.nextSocket + 1 } ∨
      serial = none ∧ e' = { e with
        conn := { e.conn with socket := some socket }, nextSocket := e.nextSocket + 1 }) := by
  rw [send_eq, Prod.mk.injEq] at done
  obtain ⟨rfl, rfl⟩ := done
  cases socket : e.conn.socket with
  | some s =>
    refine ⟨s, .inl socket, ?_⟩
    have same : e.conn = { e.conn with socket := some s } := by rw [← socket]
    rw [LocalBusConnection.send_connected socket]
    cases registered : e.conn.interest with
    | some w =>
      rw [LocalBusConnection.enqueue_registered (by simp [registered])]
      exact .inl ⟨fun _ => rfl, rfl, by simp [← socket]⟩
    | none =>
      rw [LocalBusConnection.enqueue_unregistered registered]
      exact .inr ⟨rfl, by rw [← same]⟩
  | none =>
    refine ⟨e.nextSocket, .inr ⟨socket, rfl⟩, ?_⟩
    cases connects with
    | true =>
      rw [LocalBusConnection.send_connects socket data ⟨_, true⟩ rfl,
        LocalBusConnection.enqueue_registered (by simp [LocalBusConnection.register])]
      exact .inl ⟨by simp, rfl, rfl⟩
    | false =>
      rw [LocalBusConnection.send_fails socket data ⟨_, false⟩ rfl]
      exact .inr ⟨rfl, rfl⟩

/-- The loop changes the half-read frame, the serial count and the suspended calls only. -/
theorem loop_frame (e : Endpoint β) (socket : SocketId) (data : List β) :
    ∃ task serial stack, (e.loop socket data).1 = { e with
      conn := { e.conn with readTask := task, readSerial := serial }, stack } ∧
      (stack = e.stack ∨ ∃ rest, stack = ⟨socket, rest⟩ :: e.stack) := by
  obtain ⟨task, serial, scanned⟩ := e.conn.scan_frame socket data
  unfold loop
  cases result : e.conn.scan socket data with
  | mk conn outcome =>
    rw [result] at scanned
    obtain rfl := scanned
    cases outcome with
    | none => exact ⟨task, serial, e.stack, rfl, .inl rfl⟩
    | some d => exact ⟨task, serial, _, rfl, .inr ⟨_, rfl⟩⟩

theorem handled_frame {e e' : Endpoint β} (done : e.handled = some (e', dispatch)) :
    ∃ top below task serial stack, e.stack = top :: below ∧ e' = { e with
      conn := { e.conn with readTask := task, readSerial := serial }, stack } ∧
      (stack = below ∨ ∃ rest, stack = ⟨top.socket, rest⟩ :: below) := by
  unfold handled at done
  cases stack : e.stack with
  | nil => simp [stack] at done
  | cons top below =>
    simp only [stack, Option.some.injEq] at done
    obtain ⟨rfl, -⟩ := Prod.mk.inj done
    obtain ⟨task, serial, stack', eq, calls⟩ :=
      loop_frame { e with conn := e.conn.resetRead, stack := below } top.socket top.rest
    exact ⟨top, below, task, serial, stack', rfl, eq, calls⟩

end Endpoint

namespace Label
variable {β : Type} [Cell β]

def received : Label β → List β
  | .read _ _ bytes _ => bytes
  | _ => []

def inputSocket : Label β → Option SocketId
  | .read socket _ _ _ => some socket
  | _ => none

def dispatched : Label β → List (Dispatch β)
  | .read _ _ _ dispatch | .handled dispatch => dispatch.toList
  | _ => []

/-- The frame a successful `Send` was given. -/
def sentData : Label β → List (List β)
  | .sent _ data => [data]
  | _ => []

/-- The owner called `Send`. -/
def calls : Label β → Bool
  | .sent _ _ | .refused _ => true
  | _ => false

/-- The serial a successful `Send` returned, and the frame it was given. -/
def sentCall : Label β → List (UInt32 × List β)
  | .sent serial data => [(serial, data)]
  | _ => []

def wroteOn : Label β → Option (SocketId × List β)
  | .wrote socket bytes => some (socket, bytes)
  | _ => none

/-- Input that arrives on the connection while one of its frames is being handled. -/
def nestedInput : Label β → Bool
  | .read _ nested _ _ => nested
  | _ => false

end Label

variable {β : Type} [Cell β]

/-- Everything the connection has read, in the order of the reads. -/
def bytesRead (hist : List (Label β)) : List β := hist.flatMap Label.received

/-- The calls of `OnIncomingData`: the serial, and the whole frame handed over. -/
def handed (hist : List (Label β)) : List (UInt32 × List β) :=
  (hist.flatMap Label.dispatched).map fun d => (d.serial, d.frame)

/-- The frames `Send` accepted, in order. -/
def sentFrames (hist : List (Label β)) : List (List β) := hist.flatMap Label.sentData

/-- The calls of `Send` that returned, in order: the serial and the frame. -/
def sends (hist : List (Label β)) : List (UInt32 × List β) := hist.flatMap Label.sentCall

def bytesWritten (hist : List (Label β)) : List β :=
  (hist.filterMap Label.wroteOn).flatMap Prod.snd

def writtenOn (socket : SocketId) (hist : List (Label β)) : List β :=
  (hist.filterMap Label.wroteOn).flatMap fun w => if w.1 = socket then w.2 else []

/-- All a step can do to the reading side: nothing, enter the loop, or go on with it. -/
theorem Endpoint.Step.reads {e e' : Endpoint β} {l : Label β} (step : Endpoint.Step e l e') :
    (l.received = [] ∧ l.dispatched = [] ∧ l.nestedInput = false ∧
      e'.conn.readTask = e.conn.readTask ∧ e'.conn.readSerial = e.conn.readSerial ∧
      e'.stack = e.stack) ∨
    (∃ socket bytes dispatch, l = .read socket (!e.stack.isEmpty) bytes dispatch ∧
      e.conn.socket = some socket ∧ bytes ≠ [] ∧ e.loop socket bytes = (e', dispatch)) ∨
    (∃ dispatch, l = .handled dispatch ∧ e.handled = some (e', dispatch)) := by
  cases step with
  | sent done | refused done =>
    obtain ⟨socket, _, ⟨_, _, rfl⟩ | ⟨_, rfl⟩⟩ := Endpoint.send_cases done <;>
      exact .inl ⟨rfl, rfl, rfl, rfl, rfl, rfl⟩
  | wrote up registered done =>
    rw [Endpoint.output_eq, Prod.mk.injEq] at done
    obtain ⟨-, rfl⟩ := done
    refine .inl ⟨rfl, rfl, rfl, ?_⟩
    simp [LocalBusConnection.output_eq]
  | hungUp => exact .inl ⟨rfl, rfl, rfl, rfl, rfl, rfl⟩
  | read up registered given small done => exact .inr (.inl ⟨_, _, _, rfl, up, given, done⟩)
  | handled done => exact .inr (.inr ⟨_, rfl, done⟩)

/-- All a step can do to the writing side: queue a frame, fail to, write, hang up, or
nothing. -/
inductive Endpoint.Writes (e : Endpoint β) : Label β → Endpoint β → Prop where
  | sent : e.Opens socket → (e.conn.socket.isSome → e.conn.interest.isSome) →
      Writes e (.sent e.conn.writeSerial data) { e with
        conn := { e.conn with
          socket := some socket, interest := some true,
          writeQueue := e.conn.writeQueue ++ [⟨data, 0⟩],
          writeSerial := e.conn.writeSerial + 1 }
        nextSocket := e.nextSocket + 1 }
  | refused : e.Opens socket → Writes e (.refused data) { e with
      conn := { e.conn with socket := some socket }, nextSocket := e.nextSocket + 1 }
  | wrote (n : Nat) : e.conn.socket = some socket → e.conn.interest.isSome →
      Writes e (.wrote socket (e.conn.output n).1) { e with conn := (e.conn.output n).2 }
  | hungUp : Writes e .hungUp e.hangup
  | reading (task serial stack) : l.sentData = [] → l.wroteOn = none → l ≠ .hungUp →
      Writes e l { e with
        conn := { e.conn with readTask := task, readSerial := serial }, stack }

theorem Endpoint.Step.writes {e e' : Endpoint β} {l : Label β} (step : Endpoint.Step e l e') :
    Endpoint.Writes e l e' := by
  cases step with
  | sent done =>
    obtain ⟨socket, opens, ⟨registered, serial, rfl⟩ | ⟨serial, _⟩⟩ := Endpoint.send_cases done
    · obtain rfl := Option.some.inj serial
      exact .sent opens registered
    · contradiction
  | refused done =>
    obtain ⟨socket, opens, ⟨_, serial, _⟩ | ⟨_, rfl⟩⟩ := Endpoint.send_cases done
    · contradiction
    · exact .refused opens
  | wrote up registered done =>
    rw [Endpoint.output_eq, Prod.mk.injEq] at done
    obtain ⟨rfl, rfl⟩ := done
    exact .wrote _ up registered
  | hungUp => exact .hungUp
  | read up registered given small done =>
    obtain ⟨task, serial, stack, eq, _⟩ := Endpoint.loop_frame e _ _
    rw [done] at eq
    obtain rfl := eq
    exact .reading task serial stack rfl rfl (by simp)
  | handled done =>
    obtain ⟨_, _, task, serial, stack, _, rfl, _⟩ := Endpoint.handled_frame done
    exact .reading task serial stack rfl rfl (by simp)

theorem Endpoint.Step.sockets {e e' : Endpoint β} {l : Label β} (step : Endpoint.Step e l e') :
    e.nextSocket ≤ e'.nextSocket ∧ ∀ s, e'.conn.socket = some s →
      e.conn.socket = some s ∨ s = e.nextSocket ∧ s < e'.nextSocket := by
  have opened {socket : SocketId} (opens : e.Opens socket) :
      ∀ s, some socket = some s → e.conn.socket = some s ∨ s = e.nextSocket ∧
        s < e.nextSocket + 1 := by
    rintro s ⟨⟩
    rcases opens with up | ⟨down, rfl⟩
    · exact .inl up
    · exact .inr ⟨rfl, Nat.lt_succ_self _⟩
  cases step.writes with
  | sent opens | refused opens => exact ⟨Nat.le_succ _, opened opens⟩
  | wrote n up registered =>
    refine ⟨Nat.le_refl _, fun s hs => .inl ?_⟩
    simpa [LocalBusConnection.output_eq] using hs
  | hungUp => exact ⟨Nat.le_refl _, fun s hs => by contradiction⟩
  | reading => exact ⟨Nat.le_refl _, fun s hs => .inl hs⟩

/-- Frames with the serials `n`, `n + 1`, and so on, modulo 2^32. -/
def numberedFrom {β : Type} (n : UInt32) (us : List (List β)) : List (UInt32 × List β) :=
  us.mapIdx fun i u => (n + UInt32.ofNat i, u)

def numbered {β : Type} (us : List (List β)) : List (UInt32 × List β) := numberedFrom 0 us

theorem numberedFrom_concat {β : Type} (n : UInt32) (us : List (List β)) (u : List β) :
    numberedFrom n (us ++ [u]) = numberedFrom n us ++ [(n + UInt32.ofNat us.length, u)] := by
  simp [numberedFrom]

theorem numbered_concat {β : Type} (us : List (List β)) (u : List β) :
    numbered (us ++ [u]) = numbered us ++ [(UInt32.ofNat us.length, u)] := by
  simp [numbered, numberedFrom_concat]

theorem numberedFrom_frames {β : Type} (n : UInt32) (us : List (List β)) :
    (numberedFrom n us).map Prod.snd = us :=
  List.ext_getElem (by simp [numberedFrom]) (by simp [numberedFrom])

theorem numbered_initial {β : Type} {us vs : List (List β)} (h : us <+: vs) :
    numbered us <+: numbered vs := by
  obtain ⟨rest, rfl⟩ := h
  simp [numbered, numberedFrom, List.mapIdx_append]

end PBus.Connection
