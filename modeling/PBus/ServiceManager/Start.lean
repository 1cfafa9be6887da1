import PBus.Session.Addressing

/-! Starting a service that cannot be reached: what `LocalBusConnection::Connect` asks the
service manager for, and what `Manager::start` makes of it. -/
namespace PBus
open Session Flat

/-- `LocalBusConnection::GetSocketPath`; in development mode the path is a relative one. -/
def socketPath (develMode : Bool) (serviceId : ServiceId) : Str :=
  (if develMode then ['.'] else []) ++ "/packages/".toList ++ serviceId.toString ++
    "/socket".toList

namespace ServiceManager
variable (tk : Toolkit)

/-- `IServiceManager::ClassId`. -/
def classId : ClassId := ⟨"system.ServiceManager".toList, 1⟩

/-- The object `Session::GetService` makes the proxy for. -/
def proxyId : ObjectId := ⟨classId, 0⟩

/-- The arguments of the generated `start`: its second parameter has 16 bits. -/
def startArguments (name : Str) (version : UInt16) : List UInt8 :=
  tk.string.write name ++ tk.u16.write version

/-- What `Connect` sends when it cannot reach `serviceId`: the call of `start` on the proxy of
the service manager, unless it is the service manager that cannot be reached. -/
def startRequest (serviceId : ServiceId) : Except Str (List UInt8) :=
  if serviceId = classId then
    .error ("cannot connect to ServiceManager to create service ".toList ++ serviceId.toString)
  else
    .ok (invokePayload tk proxyId "start".toList
      (startArguments tk serviceId.name serviceId.version.toUInt16))

/-- `Manager::start` up to the clone: the identifier of the process. -/
def start (name : Str) (version : UInt16) : Except Str ServiceId :=
  ClassId.new name version.toUInt32

/-- `IServiceManager::__pbus__invoke` with the base class behind it. -/
def invoke (method : Str) (args : List UInt8) : Except Str ServiceId := do
  if method = "start".toList then
    let (arg1, offset) ← tk.string.readAt args 0
    let (arg2, _offset) ← tk.u16.readAt args offset
    start arg1 arg2
  else throw ("invoking unknown method ".toList ++ method)

/-- The service manager's own session, with its one service. -/
def objects : Objects Unit where
  services id := if id = classId then some () else none
  localObjects _ := none

/-- The service manager gets an invoke: the process it starts. -/
def onInvoke (data : List UInt8) : Except Str ServiceId := do
  let ((), invocation) ← incomingInvoke tk objects data
  invoke tk invocation.methodName invocation.args

/-- `Manager::GetServicePath`. -/
def servicePath (root : Str) (serviceId : ServiceId) : Str := root ++ '/' :: serviceId.toString

/-- The file `RunProcess` reads the configuration from. -/
def configPath (root : Str) (serviceId : ServiceId) : Str :=
  servicePath root serviceId ++ '/' :: serviceId.toString ++ ".conf".toList

/-- The file `RunProcess` executes; the process listens on the socket path of this package. -/
def binary (serviceId : ServiceId) : Str :=
  "/packages/".toList ++ serviceId.toString ++ '/' :: serviceId.toString

/-- When `Connect` asks for a service, the service manager starts that service, from its own
files, and the process listens where `Connect` looks for it. -/
def StartsAskedFor (serviceId : ServiceId) : Prop :=
  ∀ payload, startRequest tk serviceId = .ok payload → ∃ data started,
    request tk payload = .ok (.invoke data) ∧ onInvoke tk data = .ok started ∧
    started = serviceId ∧
    (∀ root, configPath root started = configPath root serviceId) ∧
    binary started = binary serviceId ∧
    ∀ develMode, socketPath develMode started = socketPath develMode serviceId

variable {tk}

theorem invoke_start (lawful : tk.Lawful) (name : Str) (version : UInt16) :
    invoke tk "start".toList (startArguments tk name version) = start name version := by
  have first : (startArguments tk name version).drop 0 =
      tk.string.write name ++ (tk.u16.write version ++ []) := by simp [startArguments]
  have second := drop_written first
  simp only [invoke, if_true, bind, Except.bind, Codec.readAt_write lawful.string first,
    Codec.readAt_write lawful.u16 second]

/-- The service manager starts version 1 of the name it is given. -/
theorem onInvoke_start (lawful : tk.Lawful) {name : Str} (dashFree : ClassId.DashFree name)
    (version : UInt16) :
    onInvoke tk (proxyId.write tk ++ (tk.string.write "start".toList ++
      startArguments tk name version)) = .ok ⟨name, 1⟩ := by
  have manager : ClassId.DashFree proxyId.type.name := by decide +kernel
  have found : objects.find ⟨⟨proxyId.type.name, 1⟩, proxyId.id⟩ = .ok () :=
    Objects.find_service (by decide +kernel) rfl
  simp only [onInvoke, incomingInvoke_dashFree lawful manager, found, Except.map, bind,
    Except.bind, invoke_start lawful, start, ClassId.new_dashFree dashFree]

theorem socketPath_toString {develMode : Bool} {c d : ServiceId}
    (same : socketPath develMode c = socketPath develMode d) : c.toString = d.toString := by
  simpa only [socketPath, List.append_assoc, List.append_cancel_left_eq,
    List.append_cancel_right_eq] using same

end ServiceManager

open ServiceManager in
/-- The service that is started is the one asked for exactly when its version is 1. -/
theorem starts_asked_for_iff {tk : Toolkit} (lawful : tk.Lawful) (serviceId : ServiceId)
    (dashFree : ClassId.DashFree serviceId.name) :
    StartsAskedFor tk serviceId ↔ serviceId.version = 1 := by
  by_cases manager : serviceId = classId
  · refine iff_of_true (fun payload asked => ?_) (manager ▸ rfl)
    rw [startRequest, if_pos manager] at asked
    contradiction
  have asked : startRequest tk serviceId = .ok _ := if_neg manager
  have started := onInvoke_start lawful dashFree serviceId.version.toUInt16
  constructor
  · intro right
    obtain ⟨data, _, sent, done, rfl, _⟩ := right _ asked
    rw [request_invoke lawful, Except.ok.injEq, Request.invoke.injEq] at sent
    rw [← sent, started] at done
    exact (congrArg ClassId.version (Except.ok.inj done)).symm
  · intro first payload sent
    have self : (⟨serviceId.name, 1⟩ : ServiceId) = serviceId := by rw [← first]
    rw [asked] at sent
    obtain rfl := Except.ok.inj sent
    exact ⟨_, serviceId, request_invoke lawful _ _ _, self ▸ started, rfl, fun _ => rfl, rfl,
      fun _ => rfl⟩

theorem starts_random_generator :
    ServiceManager.StartsAskedFor .plain ⟨"system.RandomGenerator".toList, 1⟩ :=
  (starts_asked_for_iff Toolkit.plain_lawful _ (by decide +kernel)).mpr rfl

open ServiceManager in
/-- Asked for version 2, the service manager starts version 1, which listens elsewhere. -/
theorem starts_other_version :
    startRequest .plain ⟨['a'], 2⟩ =
      .ok (invokePayload .plain proxyId "start".toList (startArguments .plain ['a'] 2)) ∧
    onInvoke .plain (proxyId.write .plain ++ (Toolkit.plain.string.write "start".toList ++
      startArguments .plain ['a'] 2)) = .ok ⟨['a'], 1⟩ ∧
    socketPath false ⟨['a'], 1⟩ ≠ socketPath false ⟨['a'], 2⟩ ∧
    ¬ StartsAskedFor .plain ⟨['a'], 2⟩ := by
  have asked : startRequest .plain ⟨['a'], 2⟩ = .ok (invokePayload .plain proxyId "start".toList
      (startArguments .plain ['a'] 2)) := by decide +kernel
  have done := onInvoke_start Toolkit.plain_lawful (show ClassId.DashFree ['a'] by decide) 2
  refine ⟨asked, done, by decide +kernel, fun right => ?_⟩
  obtain ⟨data, started, sent, built, rfl, _⟩ := right _ asked
  rw [request_invoke Toolkit.plain_lawful, Except.ok.injEq, Request.invoke.injEq] at sent
  rw [← sent, done] at built
  exact absurd (Except.ok.inj built) (by decide)

end PBus
