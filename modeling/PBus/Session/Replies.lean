import PBus.ServiceManager.Start
import PBus.Session.Connections
import PBus.Session.Requests
import PBus.Session.Services

/-! The frames `OnIncomingData` sends by itself: what it answers to whatever arrives, when
decoding it, looking its object up, calling the method or sending the answer may all fail. -/
namespace PBus
open Connection Session

/-- What `OnIncomingData` uses of a session; `rest` is what else the code it calls can reach. -/
structure SessionState (tk : Toolkit) (Obj ρ : Type) where
  requests : RequestTable tk
  objects : Objects Obj
  connections : Connections UInt8
  rest : ρ

/-- The code that `OnIncomingData` calls. It may change the session in any way, by sending
frames of its own or by running the poll; an error is the text of a `std::exception`. In the
source `origin` is a reference into the connection the frame came in on, here a value: code
that has this connection destroyed leaves the source with nothing to refer to. -/
structure Environment (tk : Toolkit) (Obj ρ : Type) where
  /-- `__pbus__invoke`: what it had serialized when it returned or threw. -/
  invoke : Obj → Str → List UInt8 → SessionState tk Obj ρ →
    (List UInt8 × Except Str Unit) × SessionState tk Obj ρ
  /-- `_socket->Connect(ep)`. -/
  connect : ServiceId → SessionState tk Obj ρ → Except Str Unit × SessionState tk Obj ρ
  /-- `GetService<IServiceManager>` and the call of `start`, which waits for its reply. -/
  start : ServiceId → SessionState tk Obj ρ → Except Str Unit × SessionState tk Obj ρ
  /-- `SetNonBlocking` and `Poll::Add`. -/
  add : ServiceId → SessionState tk Obj ρ → Except Str Unit
  /-- What `Poll::Modify` throws for a socket that is not registered. -/
  notRegistered : Str

/-- A call of `Send` that `OnIncomingData` made, the serial if it returned, and the session when
it was called and when it was over. -/
structure Sent (tk : Toolkit) (Obj ρ : Type) where
  service : ServiceId
  data : List UInt8
  serial : Option UInt32
  before : SessionState tk Obj ρ
  after : SessionState tk Obj ρ

namespace SessionState
variable {tk : Toolkit} {Obj ρ : Type}

/-- The connection object `h`. -/
def conn (s : SessionState tk Obj ρ) (h : Handle) : LocalBusConnection UInt8 :=
  (s.connections.ends h).conn

def withConn (s : SessionState tk Obj ρ) (h : Handle) (c : LocalBusConnection UInt8) :
    SessionState tk Obj ρ :=
  { s with connections := { s.connections with
      ends := Function.update s.connections.ends h { s.connections.ends h with conn := c } } }

@[simp] theorem withConn_conn (s : SessionState tk Obj ρ) (h : Handle)
    (c : LocalBusConnection UInt8) : (s.withConn h c).conn h = c := by
  simp [withConn, conn]

/-- The end of `LocalBusConnection::Connect`. -/
def register (env : Environment tk Obj ρ) (s : SessionState tk Obj ρ) (h : Handle) :
    Except Str Unit × SessionState tk Obj ρ :=
  match env.add (s.conn h).serviceId s with
  | .error text => (.error text, s)
  | .ok () => (.ok (), s.withConn h (s.conn h).register)

/-- `LocalBusConnection::Connect` on connection `h`. -/
def connectSocket (env : Environment tk Obj ρ) (s : SessionState tk Obj ρ) (h : Handle) :
    Except Str Unit × SessionState tk Obj ρ :=
  let serviceId := (s.conn h).serviceId
  let s := s.withConn h ((s.conn h).openSocket (s.connections.ends h).nextSocket)
  match env.connect serviceId s with
  | (.ok (), s) => s.register env h
  | (.error _, s) =>
    if serviceId = ServiceManager.classId then
      (.error ("cannot connect to ServiceManager to create service ".toList ++
        serviceId.toString), s)
    else
      match env.start serviceId s with
      | (.error text, s) => (.error text, s)
      | (.ok (), s) =>
        match env.connect serviceId s with
        | (.error text, s) => (.error text, s)
        | (.ok (), s) => s.register env h

/-- The rest of `LocalBusConnection::Send`. -/
def enqueue (env : Environment tk Obj ρ) (s : SessionState tk Obj ρ) (h : Handle)
    (data : List UInt8) : Except Str UInt32 × SessionState tk Obj ρ :=
  match (s.conn h).enqueue data with
  | (c, some serial) => (.ok serial, s.withConn h c)
  | (_, none) => (.error env.notRegistered, s)

/-- `Session::Send`. -/
def send (env : Environment tk Obj ρ) (s : SessionState tk Obj ρ) (service : ServiceId)
    (data : List UInt8) : Except Str UInt32 × SessionState tk Obj ρ :=
  let (connections, h) := s.connections.connect service
  let s := { s with connections }
  if (s.conn h).socket.isSome then s.enqueue env h data
  else
    match s.connectSocket env h with
    | (.ok (), s) => s.enqueue env h data
    | (.error text, s) => (.error text, s)

/-- A `Send` of `OnIncomingData` itself, with what it leaves to be handled. -/
def sendLogged (env : Environment tk Obj ρ) (s : SessionState tk Obj ρ) (service : ServiceId)
    (data : List UInt8) : Except Str Unit × SessionState tk Obj ρ × List (Sent tk Obj ρ) :=
  match s.send env service data with
  | (.ok serial, s') => (.ok (), s', [⟨service, data, some serial, s, s'⟩])
  | (.error text, s') => (.error text, s', [⟨service, data, none, s, s'⟩])

/-- `ThrowException`. What its `MakeRequest` throws is caught. -/
def throwException (env : Environment tk Obj ρ) (s : SessionState tk Obj ρ) (origin : ServiceId)
    (serial : UInt32) (what : Str) : SessionState tk Obj ρ × List (Sent tk Obj ρ) :=
  (s.sendLogged env origin (frame (exceptionPayload tk serial what))).2

/-- `OnIncomingInvoke`. -/
def onIncomingInvoke (env : Environment tk Obj ρ) (s : SessionState tk Obj ρ)
    (origin : ServiceId) (serial : UInt32) (data : List UInt8) :
    Except Str Unit × SessionState tk Obj ρ × List (Sent tk Obj ρ) :=
  match readInvocation tk data with
  | .error text => (.error text, s, [])
  | .ok invocation =>
    let found := s.objects.find invocation.id
    let s := { s with objects := s.objects.looked invocation.id }
    match found with
    | .error text => (.error text, s, [])
    | .ok object =>
      match env.invoke object invocation.methodName invocation.args s with
      -- what was serialized goes with the buffer
      | ((_, .error text), s) => (.error text, s, [])
      | ((value, .ok ()), s) => s.sendLogged env origin (frame (resultPayload tk serial value))

/-- `OnIncomingData`: the session after it, and its own calls of `Send`. -/
def onIncomingData (env : Environment tk Obj ρ) (s : SessionState tk Obj ρ) (origin : ServiceId)
    (serial : UInt32) (data : List UInt8) : SessionState tk Obj ρ × List (Sent tk Obj ρ) :=
  match request tk data with
  | .ok (.invoke data) =>
    match s.onIncomingInvoke env origin serial data with
    | (.ok (), s, sends) => (s, sends)
    | (.error text, s, sends) =>
      let (s, more) := s.throwException env origin serial text
      (s, sends ++ more)
  | .ok (.exception data) =>
    ({ s with requests :=
      Function.update s.requests origin (onIncomingException (s.requests origin) data) }, [])
  | .ok (.result data) =>
    ({ s with requests :=
      Function.update s.requests origin (onIncomingResult (s.requests origin) data) }, [])
  | .error text => s.throwException env origin serial text

/-- The session when `Send` has its connection. -/
def connected (s : SessionState tk Obj ρ) (service : ServiceId) : SessionState tk Obj ρ :=
  { s with connections := (s.connections.connect service).1 }

/-- The session when the attempt of `Send` to open a socket, if it made one, is over. -/
def opened (env : Environment tk Obj ρ) (s : SessionState tk Obj ρ) (service : ServiceId) :
    SessionState tk Obj ρ :=
  let h := (s.connections.connect service).2
  if ((s.connected service).conn h).socket.isSome then s.connected service
  else ((s.connected service).connectSocket env h).2

/-- While a socket is opened, `Send` itself changes neither a queue nor `_connections`; only the
code it calls may. -/
inductive Opening (env : Environment tk Obj ρ) (s : SessionState tk Obj ρ) :
    SessionState tk Obj ρ → Prop where
  | same : Opening env s s
  | own {s₁ s₂ : SessionState tk Obj ρ} : Opening env s s₁ →
      (∀ h, (s₂.conn h).writeQueue = (s₁.conn h).writeQueue) →
      s₂.connections.table = s₁.connections.table → Opening env s s₂
  | connect {s₁ : SessionState tk Obj ρ} (serviceId : ServiceId) :
      Opening env s s₁ → Opening env s (env.connect serviceId s₁).2
  | start {s₁ : SessionState tk Obj ρ} (serviceId : ServiceId) :
      Opening env s s₁ → Opening env s (env.start serviceId s₁).2

end SessionState

/-- The connection `Session::Connect` returned to this `Send`. -/
def Sent.handle {tk : Toolkit} {Obj ρ : Type} (x : Sent tk Obj ρ) : Handle :=
  (x.before.connections.connect x.service).2

/-- The connection is the one `_connections` has for the service, the frame is one task more
behind what was queued there, or none if `Send` threw, and no other connection has changed
since the socket was open. -/
structure Sent.Queues {tk : Toolkit} {Obj ρ : Type} (env : Environment tk Obj ρ)
    (x : Sent tk Obj ρ) : Prop where
  entry : (x.before.connected x.service).connections.table x.service = some x.handle
  opening : (x.before.connected x.service).Opening env (x.before.opened env x.service)
  queue : (x.after.conn x.handle).writeQueue =
    ((x.before.opened env x.service).conn x.handle).writeQueue ++
      if x.serial.isSome then [⟨x.data, 0⟩] else []
  others : ∀ h, h ≠ x.handle →
    x.after.connections.ends h = (x.before.opened env x.service).connections.ends h
  table : x.after.connections.table = (x.before.opened env x.service).connections.table

/-- The frames that were queued, and for whom. -/
def queued {tk : Toolkit} {Obj ρ : Type} (sends : List (Sent tk Obj ρ)) :
    List (ServiceId × List UInt8) :=
  sends.filterMap fun x => x.serial.map fun _ => (x.service, x.data)

theorem queued_append {tk : Toolkit} {Obj ρ : Type} (first second : List (Sent tk Obj ρ)) :
    queued (first ++ second) = queued first ++ queued second := List.filterMap_append

section
variable (tk : Toolkit)

/-- The first value decodes as `ResponseResult` or `ResponseException`. -/
def IsResponse (data : List UInt8) : Prop :=
  ∃ type offset, tk.u8.readAt data 0 = .ok (type, offset) ∧
    (type = responseResult ∨ type = responseException)

/-- A `ResponseResult` or `ResponseException` that carries this serial. -/
def IsReply (serial : UInt32) (payload : List UInt8) : Prop :=
  (∃ value, payload = resultPayload tk serial value) ∨
    ∃ what, payload = exceptionPayload tk serial what

/-- Since `s` the connections have changed by the method, if one was called, and then by these
`Send`s, in this order, and by nothing else. -/
inductive Through {Obj ρ : Type} (env : Environment tk Obj ρ) (s : SessionState tk Obj ρ) :
    List (Sent tk Obj ρ) → SessionState tk Obj ρ → Prop where
  | same {s' : SessionState tk Obj ρ} : s'.connections = s.connections → Through env s [] s'
  | method (object : Obj) (methodName : Str) (args : List UInt8) {s' : SessionState tk Obj ρ} :
      s'.connections = s.connections → Through env s [] (env.invoke object methodName args s').2
  | send {sends : List (Sent tk Obj ρ)} {x : Sent tk Obj ρ} :
      Through env s sends x.before → x.Queues env → Through env s (sends ++ [x]) x.after

/-- What `OnIncomingData` sends by itself: nothing for a response; anything else it answers,
once, unless no `Send` it made returned. -/
structure Replies {Obj ρ : Type} (env : Environment tk Obj ρ) (s : SessionState tk Obj ρ)
    (origin : ServiceId) (serial : UInt32) (data : List UInt8)
    (outcome : SessionState tk Obj ρ × List (Sent tk Obj ρ)) : Prop where
  silent : IsResponse tk data → outcome.2 = [] ∧ outcome.1.connections = s.connections
  single : queued outcome.2 = [] ∨ ∃ reply, IsReply tk serial reply ∧
    queued outcome.2 = [(origin, frame reply)]
  answered : ¬ IsResponse tk data → queued outcome.2 = [] →
    outcome.2 ≠ [] ∧ ∀ x ∈ outcome.2, x.serial = none
  through : Through tk env s outcome.2 outcome.1

/-- Some session that is handed `payload` queues a frame from which `reply` is handed over. -/
def Answers (payload reply : List UInt8) : Prop :=
  ∃ (Obj ρ : Type) (env : Environment tk Obj ρ) (s : SessionState tk Obj ρ) (origin : ServiceId)
    (serial : UInt32) (data : List UInt8),
    (origin, data) ∈ queued (s.onIncomingData env origin serial payload).2 ∧ reply = data.drop 4

/-- Frames each of which answers the one before. -/
abbrev Exchange (payloads : List (List UInt8)) : Prop := payloads.IsChain (Answers tk)

end

namespace SessionState
variable {tk : Toolkit} {Obj ρ : Type}

/-- All a `Send` can do: return with its frame queued, or throw. -/
inductive Logged (env : Environment tk Obj ρ) (s : SessionState tk Obj ρ) (service : ServiceId)
    (data : List UInt8) :
    Except Str Unit × SessionState tk Obj ρ × List (Sent tk Obj ρ) → Prop where
  | returned (serial : UInt32) {s' : SessionState tk Obj ρ} :
      Sent.Queues env ⟨service, data, some serial, s, s'⟩ →
      Logged env s service data (.ok (), s', [⟨service, data, some serial, s, s'⟩])
  | threw (text : Str) {s' : SessionState tk Obj ρ} :
      Sent.Queues env ⟨service, data, none, s, s'⟩ →
      Logged env s service data (.error text, s', [⟨service, data, none, s, s'⟩])

theorem enqueue_cases (env : Environment tk Obj ρ) (s : SessionState tk Obj ρ) (h : Handle)
    (data : List UInt8) :
    (∃ serial s', s.enqueue env h data = (.ok serial, s') ∧
      (s'.conn h).writeQueue = (s.conn h).writeQueue ++ [⟨data, 0⟩] ∧
      (∀ h', h' ≠ h → s'.connections.ends h' = s.connections.ends h') ∧
      s'.connections.table = s.connections.table) ∨
    ∃ text, s.enqueue env h data = (.error text, s) := by
  cases registered : (s.conn h).interest with
  | none =>
    refine .inr ⟨env.notRegistered, ?_⟩
    rw [enqueue, LocalBusConnection.enqueue_unregistered registered]
  | some w =>
    have up : (s.conn h).interest.isSome := by simp [registered]
    have done := LocalBusConnection.enqueue_registered up data
    refine .inl ⟨_, s.withConn h _, by rw [enqueue, done], ?_, fun h' other => ?_, rfl⟩
    · rw [withConn_conn]
    · exact Function.update_of_ne other _ _

/-- A `Send` throws where its connection could not be opened, or gets to the queue. -/
theorem send_cases (env : Environment tk Obj ρ) (s : SessionState tk Obj ρ) (service : ServiceId)
    (data : List UInt8) :
    (∃ text, s.send env service data = (.error text, s.opened env service)) ∨
      s.send env service data =
        (s.opened env service).enqueue env (s.connections.connect service).2 data := by
  unfold send opened connected
  dsimp only
  split
  · exact .inr rfl
  · split <;> rename_i done
    · exact .inr (by rw [done])
    · exact .inl ⟨_, by rw [done]⟩

theorem Opening.withConn {env : Environment tk Obj ρ} {s s₁ : SessionState tk Obj ρ}
    (opening : s.Opening env s₁) (h : Handle) {c : LocalBusConnection UInt8}
    (queue : c.writeQueue = (s₁.conn h).writeQueue) : s.Opening env (s₁.withConn h c) := by
  refine opening.own (fun h' => ?_) rfl
  by_cases here : h' = h
  · rw [here, withConn_conn, queue]
  · simp [SessionState.withConn, conn, here]

theorem Opening.register {env : Environment tk Obj ρ} {s s₁ : SessionState tk Obj ρ}
    (opening : s.Opening env s₁) (h : Handle) : s.Opening env (s₁.register env h).2 := by
  unfold SessionState.register
  split
  · exact opening
  · exact opening.withConn h rfl

theorem connectSocket_opening (env : Environment tk Obj ρ) (s : SessionState tk Obj ρ)
    (h : Handle) : s.Opening env (s.connectSocket env h).2 := by
  have opened : s.Opening env
      (s.withConn h ((s.conn h).openSocket (s.connections.ends h).nextSocket)) :=
    Opening.same.withConn h rfl
  have tried := opened.connect (s.conn h).serviceId
  unfold connectSocket
  dsimp only
  split <;> rename_i first <;> rw [first] at tried
  · exact tried.register h
  · split
    · exact tried
    · have started := tried.start (s.conn h).serviceId
      split <;> rename_i start <;> rw [start] at started
      · exact started
      · have again := started.connect (s.conn h).serviceId
        split <;> rename_i second <;> rw [second] at again
        · exact again
        · exact again.register h

theorem opened_opening (env : Environment tk Obj ρ) (s : SessionState tk Obj ρ)
    (service : ServiceId) : (s.connected service).Opening env (s.opened env service) := by
  unfold opened
  dsimp only
  split
  · exact .same
  · exact connectSocket_opening env _ _

theorem queues_nothing (env : Environment tk Obj ρ) (s : SessionState tk Obj ρ)
    (service : ServiceId) (data : List UInt8) :
    Sent.Queues env ⟨service, data, none, s, s.opened env service⟩ := by
  constructor
  case entry => exact Connections.connect_table s.connections service
  case opening => exact opened_opening env s service
  case queue => exact (List.append_nil _).symm
  case others => exact fun _ _ => rfl
  case table => rfl

theorem sendLogged_logged (env : Environment tk Obj ρ) (s : SessionState tk Obj ρ)
    (service : ServiceId) (data : List UInt8) :
    Logged env s service data (s.sendLogged env service data) := by
  have threw (text : Str) := Logged.threw text (queues_nothing env s service data)
  unfold sendLogged
  rcases send_cases env s service data with ⟨text, done⟩ | done
  · rw [done]
    exact threw text
  · rw [done]
    rcases enqueue_cases env (s.opened env service) (s.connections.connect service).2 data with
      ⟨serial, s', done, queue, others, table⟩ | ⟨text, done⟩
    · rw [done]
      apply Logged.returned
      constructor
      case entry => exact Connections.connect_table s.connections service
      case opening => exact opened_opening env s service
      case queue => exact queue
      case others => exact others
      case table => exact table
    · rw [done]
      exact threw text

theorem onIncomingInvoke_cases (env : Environment tk Obj ρ) (s : SessionState tk Obj ρ)
    (origin : ServiceId) (serial : UInt32) (data : List UInt8) :
    (∃ text s', Through tk env s [] s' ∧
      s.onIncomingInvoke env origin serial data = (.error text, s', [])) ∨
    ∃ value s', Through tk env s [] s' ∧
      Logged env s' origin (frame (resultPayload tk serial value))
        (s.onIncomingInvoke env origin serial data) := by
  simp only [onIncomingInvoke]
  split
  · exact .inl ⟨_, _, .same rfl, rfl⟩
  · rename_i invocation _
    have called (object : Obj) : Through tk env s [] (env.invoke object invocation.methodName
        invocation.args { s with objects := s.objects.looked invocation.id }).2 :=
      .method object _ _ rfl
    split
    · refine .inl ⟨_, _, ?_, rfl⟩
      exact .same rfl
    · rename_i object _
      have called := called object
      split <;> rename_i ran <;> rw [ran] at called
      · exact .inl ⟨_, _, called, rfl⟩
      · exact .inr ⟨_, _, called, sendLogged_logged ..⟩

theorem request_isResponse {data : List UInt8} :
    IsResponse tk data ↔
      (∃ rest, request tk data = .ok (.exception rest)) ∨
        ∃ rest, request tk data = .ok (.result rest) := by
  unfold IsResponse request
  cases tk.u8.readAt data 0 with
  | error text => simp [bind, Except.bind]
  | ok pair =>
    obtain ⟨type, offset⟩ := pair
    simp only [Except.ok.injEq, Prod.mk.injEq, bind, Except.bind]
    constructor
    · rintro ⟨type, offset, ⟨rfl, rfl⟩, rfl | rfl⟩
      · exact .inr ⟨_, rfl⟩
      · exact .inl ⟨_, rfl⟩
    · intro response
      refine ⟨type, offset, ⟨rfl, rfl⟩, ?_⟩
      by_cases isInvoke : type = requestInvoke
      · subst isInvoke
        rcases response with ⟨rest, h⟩ | ⟨rest, h⟩ <;> cases h
      by_cases isException : type = responseException
      · exact .inr isException
      by_cases isResult : type = responseResult
      · exact .inl isResult
      rw [if_neg isInvoke, if_neg isException, if_neg isResult] at response
      rcases response with ⟨rest, h⟩ | ⟨rest, h⟩ <;> cases h

theorem Logged.replies {env : Environment tk Obj ρ} {s s₁ : SessionState tk Obj ρ}
    {origin : ServiceId} {serial : UInt32} {data reply : List UInt8}
    {outcome : Except Str Unit × SessionState tk Obj ρ × List (Sent tk Obj ρ)}
    {before : List (Sent tk Obj ρ)} (logged : Logged env s₁ origin (frame reply) outcome)
    (isReply : IsReply tk serial reply) (request : ¬ IsResponse tk data)
    (through : Through tk env s before s₁) (failed : ∀ x ∈ before, x.serial = none) :
    Replies tk env s origin serial data (outcome.2.1, before ++ outcome.2.2) := by
  have failures : queued before = [] := by
    rw [queued, List.filterMap_eq_nil_iff]
    intro x hx
    rw [failed x hx]
    rfl
  have all : queued (before ++ outcome.2.2) = queued outcome.2.2 := by
    rw [queued_append, failures, List.nil_append]
  cases logged with
  | returned n queues =>
    constructor
    case silent => exact fun response => absurd response request
    case single => exact .inr ⟨reply, isReply, all⟩
    case answered => exact fun _ nothing => absurd (all.symm.trans nothing) (by simp [queued])
    case through => exact .send through queues
  | threw text queues =>
    constructor
    case silent => exact fun response => absurd response request
    case single => exact .inl all
    case answered =>
      intro _ _
      refine ⟨by simp, fun x hx => ?_⟩
      rcases List.mem_append.mp hx with hx | hx
      · exact failed x hx
      · rw [List.mem_singleton.mp hx]
    case through => exact .send through queues

theorem throwException_replies {env : Environment tk Obj ρ} {s s₁ : SessionState tk Obj ρ}
    {origin : ServiceId} {serial : UInt32} {data : List UInt8} {before : List (Sent tk Obj ρ)}
    (what : Str) (request : ¬ IsResponse tk data) (through : Through tk env s before s₁)
    (failed : ∀ x ∈ before, x.serial = none) :
    Replies tk env s origin serial data ((s₁.throwException env origin serial what).1,
      before ++ (s₁.throwException env origin serial what).2) :=
  (sendLogged_logged env s₁ origin _).replies (.inr ⟨what, rfl⟩) request through failed

theorem onIncomingData_response (env : Environment tk Obj ρ) (s : SessionState tk Obj ρ)
    (origin : ServiceId) (serial : UInt32) {data : List UInt8} (response : IsResponse tk data) :
    s.onIncomingData env origin serial data =
      ({ s with requests := s.requests.onIncomingData origin data }, []) := by
  rcases request_isResponse.mp response with ⟨rest, read⟩ | ⟨rest, read⟩ <;>
    simp only [onIncomingData, RequestTable.onIncomingData, read]

theorem onIncomingData_replies (env : Environment tk Obj ρ) (s : SessionState tk Obj ρ)
    (origin : ServiceId) (serial : UInt32) (data : List UInt8) :
    Replies tk env s origin serial data (s.onIncomingData env origin serial data) := by
  by_cases response : IsResponse tk data
  · rw [onIncomingData_response env s origin serial response]
    constructor
    case silent => exact fun _ => ⟨rfl, rfl⟩
    case single => exact .inl rfl
    case answered => exact fun isRequest => absurd response isRequest
    case through => exact .same rfl
  have nothing : ∀ x ∈ ([] : List (Sent tk Obj ρ)), x.serial = none := by simp
  unfold onIncomingData
  split <;> rename_i read
  · rename_i rest
    rcases s.onIncomingInvoke_cases env origin serial rest with
      ⟨text, s', through, threw⟩ | ⟨value, s', through, logged⟩
    · rw [threw]
      exact throwException_replies text response through nothing
    · generalize s.onIncomingInvoke env origin serial rest = outcome at logged
      cases logged with
      | returned n queues =>
        exact (Logged.returned n queues).replies (.inl ⟨value, rfl⟩) response through nothing
      | threw text queues =>
        exact throwException_replies text response (.send through queues) (by simp)
  · exact absurd (request_isResponse.mpr (.inl ⟨_, read⟩)) response
  · exact absurd (request_isResponse.mpr (.inr ⟨_, read⟩)) response
  · exact throwException_replies _ response (.same rfl) nothing

end SessionState
open SessionState
variable {tk : Toolkit}

theorem IsReply.isResponse (lawful : tk.Lawful) {serial : UInt32} {payload : List UInt8}
    (reply : IsReply tk serial payload) : IsResponse tk payload := by
  rw [request_isResponse]
  rcases reply with ⟨value, rfl⟩ | ⟨what, rfl⟩
  · exact .inr ⟨_, request_result lawful serial value⟩
  · exact .inl ⟨_, request_exception lawful serial what⟩

theorem Answers.isReply {payload reply : List UInt8} (answers : Answers tk payload reply) :
    ∃ serial, IsReply tk serial reply := by
  obtain ⟨Obj, ρ, env, s, origin, serial, data, queues, rfl⟩ := answers
  rcases (onIncomingData_replies env s origin serial payload).single with
    none | ⟨reply, isReply, one⟩
  · simp [none] at queues
  · obtain ⟨-, rfl⟩ := Prod.mk.inj (List.mem_singleton.mp (one ▸ queues))
    exact ⟨serial, (frame_drop reply).symm ▸ isReply⟩

theorem Answers.request {payload reply : List UInt8} (answers : Answers tk payload reply) :
    ¬ IsResponse tk payload := by
  obtain ⟨Obj, ρ, env, s, origin, serial, data, queues, rfl⟩ := answers
  intro response
  rw [((onIncomingData_replies env s origin serial payload).silent response).1] at queues
  cases queues

/-- A session answers a frame that is not a response once, if it can send at all, with one task
at the end of the queue of the connection it has for the origin, and a response not at all; so an
exchange of frames, each sent for the one before, ends with the answer to the first. -/
theorem one_reply (lawful : tk.Lawful) :
    (∀ {Obj ρ : Type} (env : Environment tk Obj ρ) (s : SessionState tk Obj ρ)
      (origin : ServiceId) (serial : UInt32) (data : List UInt8),
      Replies tk env s origin serial data (s.onIncomingData env origin serial data)) ∧
    ∀ payloads : List (List UInt8), Exchange tk payloads → payloads.length ≤ 2 := by
  refine ⟨onIncomingData_replies, fun payloads exchange => ?_⟩
  rcases payloads with _ | ⟨first, _ | ⟨second, _ | ⟨third, rest⟩⟩⟩
  · simp
  · simp
  · simp
  · obtain ⟨answered, exchange⟩ := List.isChain_cons_cons.mp exchange
    obtain ⟨again, -⟩ := List.isChain_cons_cons.mp exchange
    obtain ⟨serial, isReply⟩ := answered.isReply
    exact absurd (isReply.isResponse lawful) again.request

/-- An environment in which connecting works and methods return nothing. -/
def quiet : Environment .plain Unit Unit where
  invoke _ _ _ s := ((Toolkit.nothing.write (), .ok ()), s)
  connect _ s := (.ok (), s)
  start _ s := (.ok (), s)
  add _ _ := .ok ()
  notRegistered := []

def idle : SessionState .plain Unit Unit where
  requests _ _ := none
  objects := .empty
  connections := {}
  rest := ()

/-- An unknown request is answered with an exception, and that exception with nothing. -/
theorem one_reply_unknown :
    queued (idle.onIncomingData quiet ⟨['a'], 1⟩ 3 [9]).2 =
      [(⟨['a'], 1⟩, frame (exceptionPayload .plain 3 "unhandled request 9".toList))] ∧
    Replies .plain quiet idle ⟨['a'], 1⟩ 3 [9] (idle.onIncomingData quiet ⟨['a'], 1⟩ 3 [9]) ∧
    ∀ reply next, ¬ Exchange .plain [[9], reply, next] := by
  refine ⟨by decide +kernel, (one_reply Toolkit.plain_lawful).1 quiet idle _ _ _, ?_⟩
  intro reply next exchange
  exact absurd ((one_reply Toolkit.plain_lawful).2 _ exchange) (by simp)

end PBus
