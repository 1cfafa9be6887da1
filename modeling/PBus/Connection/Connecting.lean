import PBus.Connection.Endpoint
import PBus.ServiceManager.Start

/-! `Connect` call by call. Each call it makes may throw, and while it waits for the service
manager the poll runs, so that handlers may call `Send` on the connection that is not yet
connected. -/
namespace PBus.Connection
open Transition
variable {β : Type} [Cell β]

/-- How the calls of `Connect` end, as far as it comes to them. -/
structure Outcomes (β : Type) where
  connect : Except Str Unit
  /-- What handlers try to send on this connection while `start` waits. -/
  nested : List (List β) := []
  /-- `GetService` and `start`. -/
  start : Except Str Unit := .ok ()
  reconnect : Except Str Unit := .ok ()
  setNonBlocking : Except Str Unit := .ok ()
  add : Except Str Unit := .ok ()

omit [Cell β] in
/-- The calls let `Connect` get to its end. -/
def Outcomes.passes (o : Outcomes β) (serviceId : ServiceId) : Bool :=
  (o.connect.isOk ||
    serviceId ≠ ServiceManager.classId && o.start.isOk && o.reconnect.isOk) &&
  o.setNonBlocking.isOk && o.add.isOk

namespace LocalBusConnection

/-- The calls of `Send` on a connection that has a socket. -/
def nestedSends (c : LocalBusConnection β) (frames : List (List β)) : LocalBusConnection β :=
  frames.foldl (fun c data => (c.enqueue data).1) c

/-- The end of `Connect`. -/
def addToPoll (c : LocalBusConnection β) (o : Outcomes β) :
    Except Str Unit × LocalBusConnection β :=
  match o.setNonBlocking with
  | .error text => (.error text, c)
  | .ok () =>
    match o.add with
    | .error text => (.error text, c)
    | .ok () => (.ok (), c.register)

/-- `Connect`. -/
def connectCalls (c : LocalBusConnection β) (socket : SocketId) (o : Outcomes β) :
    Except Str Unit × LocalBusConnection β :=
  match c.socket with
  | some _ => (.ok (), c)
  | none =>
    let c := c.openSocket socket
    match o.connect with
    | .ok () => c.addToPoll o
    | .error _ =>
      if c.serviceId = ServiceManager.classId then
        (.error ("cannot connect to ServiceManager to create service ".toList ++
          c.serviceId.toString), c)
      else
        let c := c.nestedSends o.nested
        match o.start with
        | .error text => (.error text, c)
        | .ok () =>
          match o.reconnect with
          | .error text => (.error text, c)
          | .ok () => c.addToPoll o

/-- `Send`; nothing is returned if it throws. -/
def sendCalls (c : LocalBusConnection β) (data : List β) (socket : SocketId) (o : Outcomes β) :
    LocalBusConnection β × Option UInt32 :=
  match c.connectCalls socket o with
  | (.ok (), c) => c.enqueue data
  | (.error _, c) => (c, none)

theorem nestedSends_unregistered {c : LocalBusConnection β} (h : c.interest = none)
    (frames : List (List β)) : c.nestedSends frames = c := by
  induction frames with
  | nil => rfl
  | cons data frames ih =>
    rw [nestedSends, List.foldl_cons, enqueue_unregistered h]
    exact ih

theorem addToPoll_spec (c : LocalBusConnection β) (o : Outcomes β) :
    (c.addToPoll o).1.isOk = (o.setNonBlocking.isOk && o.add.isOk) ∧
      (c.addToPoll o).2 =
        if o.setNonBlocking.isOk && o.add.isOk then c.register else c := by
  unfold addToPoll
  cases o.setNonBlocking with
  | error text => exact ⟨rfl, rfl⟩
  | ok =>
    cases o.add with
    | error text => exact ⟨rfl, rfl⟩
    | ok => exact ⟨rfl, rfl⟩

theorem connectCalls_spec {c : LocalBusConnection β} (down : c.socket = none)
    (unregistered : c.interest = none) (socket : SocketId) (o : Outcomes β) :
    (c.connectCalls socket o).1.isOk = o.passes c.serviceId ∧
      (c.connectCalls socket o).2 =
        if o.passes c.serviceId then (c.openSocket socket).register else c.openSocket socket := by
  obtain ⟨connect, nested, start, reconnect, setNonBlocking, add⟩ := o
  have added := (c.openSocket socket).addToPoll_spec
    ⟨connect, nested, start, reconnect, setNonBlocking, add⟩
  have waited : (c.openSocket socket).nestedSends nested = c.openSocket socket :=
    nestedSends_unregistered (c := c.openSocket socket) unregistered nested
  have id : (c.openSocket socket).serviceId = c.serviceId := rfl
  cases connect with
  | ok => simpa [connectCalls, down, Outcomes.passes, Except.isOk, Except.toBool] using added
  | error text =>
    by_cases manager : c.serviceId = ServiceManager.classId
    · simp [connectCalls, down, id, Outcomes.passes, manager, Except.isOk, Except.toBool]
    · cases start with
      | error text =>
        simp [connectCalls, down, waited, id, Outcomes.passes, manager, Except.isOk, Except.toBool]
      | ok =>
        cases reconnect with
        | error text =>
          simp [connectCalls, down, waited, id, Outcomes.passes, manager, Except.isOk,
            Except.toBool]
        | ok =>
          simpa [connectCalls, down, waited, id, Outcomes.passes, manager, Except.isOk,
            Except.toBool] using added

/-- `Send` on a connection without a socket: only a `Connect` that gets to its end lets it
queue the frame. -/
theorem sendCalls_spec {c : LocalBusConnection β} (down : c.socket = none)
    (unregistered : c.interest = none) (data : List β) (socket : SocketId) (o : Outcomes β) :
    c.sendCalls data socket o =
      if o.passes c.serviceId then
        ({ c with
          socket := some socket, interest := some true,
          writeQueue := c.writeQueue ++ [⟨data, 0⟩], writeSerial := c.writeSerial + 1 },
          some c.writeSerial)
      else (c.openSocket socket, none) := by
  obtain ⟨passed, conn⟩ := connectCalls_spec down unregistered socket o
  unfold sendCalls
  cases outcome : c.connectCalls socket o with
  | mk result c' =>
    rw [outcome] at passed conn
    simp only at passed conn
    rw [← passed] at conn ⊢
    cases result with
    | error text => simpa [Except.isOk, Except.toBool] using conn
    | ok =>
      have registered : (c.openSocket socket).register.interest.isSome := rfl
      simp only [Except.isOk, Except.toBool, if_true] at conn ⊢
      rw [conn, enqueue_registered registered]
      rfl

theorem sendCalls_eq {c : LocalBusConnection β} (down : c.socket = none)
    (unregistered : c.interest = none) (data : List β) (socket : SocketId) (o : Outcomes β) :
    c.sendCalls data socket o = c.send data ⟨socket, o.passes c.serviceId⟩ := by
  rw [sendCalls_spec down unregistered]
  cases passes : o.passes c.serviceId with
  | true =>
    rw [send_connects down data ⟨socket, true⟩ rfl, enqueue_registered rfl]
    rfl
  | false => rw [send_fails down data ⟨socket, false⟩ rfl]; rfl

end LocalBusConnection

namespace Connecting

inductive Label (β : Type) [Cell β] where
  /-- An operation that does not run `Connect`. -/
  | own (l : Connection.Label β)
  /-- A `Send` that found no socket: how the calls of `Connect` ended, and the serial if it
  returned. -/
  | connected (data : List β) (o : Outcomes β) (serial : Option UInt32)
  /-- `_socket->Write` or `_socket->Read` threw, and `HandleSocketEvent` with it. -/
  | threw (socket : SocketId)

inductive Step : Endpoint β → Label β → Endpoint β → Prop where
  | own : Endpoint.Step e l e' → (l.calls → e.conn.socket.isSome) → Step e (.own l) e'
  | connected : e.conn.socket = none → e.conn.sendCalls data e.nextSocket o = (conn, serial) →
      Step e (.connected data o serial) { e with conn, nextSocket := e.nextSocket + 1 }
  | threw : e.conn.socket = some socket → e.conn.interest.isSome → Step e (.threw socket) e

/-- Only sockets that the connection holds are in the poll. -/
def Polled (e : Endpoint β) : Prop := e.conn.interest.isSome → e.conn.socket.isSome

/-- The connection holds a socket only if it is in the poll. -/
def Held (e : Endpoint β) : Prop := e.conn.socket.isSome → e.conn.interest.isSome

theorem polled_started {start : Endpoint β} (started : Endpoint.Started start) :
    Polled start ∧ Held start := by
  cases started with
  | outgoing serviceId => exact ⟨id, id⟩
  | accepted serviceId socket => exact ⟨fun _ => rfl, fun _ => rfl⟩

theorem polled_unregistered {e : Endpoint β} (polled : Polled e) (down : e.conn.socket = none) :
    e.conn.interest = none := by
  rw [← Option.not_isSome_iff_eq_none]
  intro registered
  have up := polled registered
  rw [down] at up
  contradiction

/-- All a step can do to the connection: keep it, queue a frame on a registered socket, connect
and queue a frame, keep the socket of a `Connect` that threw, write, or hang up. -/
inductive Does (e : Endpoint β) : Label β → Endpoint β → Prop where
  | sent {data : List β} : e.conn.socket.isSome → e.conn.interest.isSome → ∀ nextSocket,
      Does e (.own (.sent e.conn.writeSerial data)) { e with
        conn := { e.conn with
          interest := some true, writeQueue := e.conn.writeQueue ++ [⟨data, 0⟩],
          writeSerial := e.conn.writeSerial + 1 }, nextSocket }
  | refused {data : List β} : e.conn.socket.isSome → e.conn.interest = none → ∀ nextSocket,
      Does e (.own (.refused data)) { e with nextSocket }
  | connected {data : List β} {o : Outcomes β} : e.conn.socket = none →
      o.passes e.conn.serviceId = true →
      Does e (.connected data o (some e.conn.writeSerial)) { e with
        conn := { e.conn with
          socket := some e.nextSocket, interest := some true,
          writeQueue := e.conn.writeQueue ++ [⟨data, 0⟩],
          writeSerial := e.conn.writeSerial + 1 }
        nextSocket := e.nextSocket + 1 }
  | failed {data : List β} {o : Outcomes β} : e.conn.socket = none →
      o.passes e.conn.serviceId = false →
      Does e (.connected data o none) { e with
        conn := e.conn.openSocket e.nextSocket, nextSocket := e.nextSocket + 1 }
  | wrote {socket : SocketId} (n : Nat) : e.conn.socket = some socket → e.conn.interest.isSome →
      Does e (.own (.wrote socket (e.conn.output n).1)) { e with conn := (e.conn.output n).2 }
  | threw {socket : SocketId} : Does e (.threw socket) e
  | hungUp : Does e (.own .hungUp) e.hangup
  | reading {l : Connection.Label β} (task serial stack) : l.calls = false → l ≠ .hungUp →
      Does e (.own l) { e with
        conn := { e.conn with readTask := task, readSerial := serial }, stack }

/-- A `Send` that connects is one step of the connection seen from outside. -/
theorem Step.atomic {e e' : Endpoint β} {data : List β} {o : Outcomes β} {serial : Option UInt32}
    (polled : Polled e) (step : Step e (.connected data o serial) e') :
    Endpoint.Step e (serial.elim (.refused data) (.sent · data)) e' := by
  cases step with
  | connected down done =>
    rw [LocalBusConnection.sendCalls_eq down (polled_unregistered polled down)] at done
    have sent := Endpoint.send_eq e data (o.passes e.conn.serviceId)
    rw [done] at sent
    cases serial with
    | none => exact .refused sent
    | some serial => exact .sent sent

theorem send_existing {e e' : Endpoint β} {data : List β} {connects : Bool}
    {serial : Option UInt32} (up : e.conn.socket.isSome)
    (done : e.send data connects = (e', serial)) :
    (e.conn.interest.isSome ∧ e' = { e with
        conn := { e.conn with
          interest := some true, writeQueue := e.conn.writeQueue ++ [⟨data, 0⟩],
          writeSerial := e.conn.writeSerial + 1 }
        nextSocket := e.nextSocket + 1 } ∧ serial = some e.conn.writeSerial) ∨
      e.conn.interest = none ∧ e' = { e with nextSocket := e.nextSocket + 1 } ∧ serial = none := by
  obtain ⟨socket, held⟩ := Option.isSome_iff_exists.mp up
  rw [Endpoint.send_eq, LocalBusConnection.send_connected held, Prod.mk.injEq] at done
  obtain ⟨rfl, rfl⟩ := done
  cases interest : e.conn.interest with
  | some w =>
    rw [LocalBusConnection.enqueue_registered (by rw [interest]; rfl)]
    exact .inl ⟨rfl, rfl, rfl⟩
  | none =>
    rw [LocalBusConnection.enqueue_unregistered interest]
    exact .inr ⟨rfl, rfl, rfl⟩

theorem Step.does {e e' : Endpoint β} {l : Label β} (polled : Polled e) (step : Step e l e') :
    Does e l e' := by
  cases step with
  | own step existing =>
    cases step with
    | sent done =>
      rcases send_existing (existing rfl) done with ⟨registered, rfl, serial⟩ | ⟨-, -, serial⟩
      · obtain rfl := Option.some.inj serial
        exact .sent (existing rfl) registered _
      · contradiction
    | refused done =>
      rcases send_existing (existing rfl) done with ⟨-, -, serial⟩ | ⟨unregistered, rfl, -⟩
      · contradiction
      · exact .refused (existing rfl) unregistered _
    | wrote up registered done =>
      rw [Endpoint.output_eq, Prod.mk.injEq] at done
      obtain ⟨rfl, rfl⟩ := done
      exact .wrote _ up registered
    | hungUp => exact .hungUp
    | read up registered given small done =>
      obtain ⟨task, serial, stack, eq, _⟩ := Endpoint.loop_frame e _ _
      rw [done] at eq
      obtain rfl := eq
      exact .reading task serial stack rfl (by simp)
    | handled done =>
      obtain ⟨_, _, task, serial, stack, _, rfl, _⟩ := Endpoint.handled_frame done
      exact .reading task serial stack rfl (by simp)
  | connected down done =>
    rw [LocalBusConnection.sendCalls_spec down (polled_unregistered polled down)] at done
    split at done
    next passes =>
      obtain ⟨rfl, rfl⟩ := Prod.mk.inj done
      exact .connected down passes
    next fails =>
      obtain ⟨rfl, rfl⟩ := Prod.mk.inj done
      exact .failed down (Bool.not_eq_true _ ▸ fails)
  | threw => exact .threw

theorem Step.polled {e e' : Endpoint β} {l : Label β} (before : Polled e) (step : Step e l e') :
    Polled e' ∧ e'.conn.serviceId = e.conn.serviceId := by
  cases step.does before with
  | sent up registered => exact ⟨fun _ => up, rfl⟩
  | refused up unregistered => exact ⟨before, rfl⟩
  | connected => exact ⟨fun _ => rfl, rfl⟩
  | failed => exact ⟨fun _ => rfl, rfl⟩
  | wrote n up registered =>
    rw [LocalBusConnection.output_eq]
    exact ⟨fun _ => by rw [up]; rfl, rfl⟩
  | threw => exact ⟨before, rfl⟩
  | hungUp => exact ⟨fun registered => absurd registered Bool.false_ne_true, rfl⟩
  | reading => exact ⟨before, rfl⟩

theorem polled_run {start e : Endpoint β} {hist : List (Label β)}
    (started : Endpoint.Started start) (run : Reaches Step start hist e) :
    Polled e ∧ e.conn.serviceId = start.conn.serviceId := by
  refine run.invariant (P := fun e => Polled e ∧ e.conn.serviceId = start.conn.serviceId) ?_
    ⟨(polled_started started).1, rfl⟩
  intro e l e' before step
  obtain ⟨polled, same⟩ := step.polled before.1
  exact ⟨polled, same.trans before.2⟩

/-- A step that runs no `Connect` that throws. -/
def Label.Passes (serviceId : ServiceId) : Label β → Prop
  | .connected _ o _ => o.passes serviceId = true
  | _ => True

theorem Step.held {e e' : Endpoint β} {l : Label β} (polled : Polled e) (before : Held e)
    (passes : l.Passes e.conn.serviceId) (step : Step e l e') : Held e' := by
  cases step.does polled with
  | sent => exact fun _ => rfl
  | refused => exact before
  | connected => exact fun _ => rfl
  | failed down fails => exact absurd (passes.symm.trans fails) (by decide)
  | wrote n up registered =>
    intro _
    rw [LocalBusConnection.output_eq]
    simp only
    split
    · rwa [Option.isSome_map]
    · exact registered
  | threw => exact before
  | hungUp => exact fun up => absurd up Bool.false_ne_true
  | reading => exact before

theorem held_run {start e : Endpoint β} {hist : List (Label β)}
    (started : Endpoint.Started start) (run : Reaches Step start hist e)
    (passes : ∀ l ∈ hist, l.Passes start.conn.serviceId) : Held e := by
  obtain ⟨polled, held⟩ := polled_started started
  have kept := (Guarded.of_labels run passes).history
    (P := fun _ e => Held e ∧ Polled e ∧ e.conn.serviceId = start.conn.serviceId) ?_
    ⟨held, polled, rfl⟩
  · exact kept.1
  · rintro past e l e' ⟨held, polled, same⟩ step passes
    obtain ⟨polled', same'⟩ := step.polled polled
    exact ⟨step.held polled held (same ▸ passes), polled', same'.trans same⟩

/-- A connection whose socket never got into the poll. -/
def Stranded (e : Endpoint β) : Prop := e.conn.socket.isSome ∧ e.conn.interest = none

theorem Step.stranded {e e' : Endpoint β} {l : Label β} (stranded : Stranded e)
    (step : Step e l e') :
    Stranded e' ∧
      ((∃ data, l = .own (.refused data)) ∨ ∃ dispatch, l = .own (.handled dispatch)) := by
  obtain ⟨up, unregistered⟩ := stranded
  have absent : ¬ e.conn.interest.isSome := by simp [unregistered]
  cases step with
  | own step existing =>
    cases step with
    | sent done =>
      obtain ⟨registered, _⟩ | ⟨_, _, serial⟩ := send_existing up done
      · exact absurd registered absent
      · contradiction
    | refused done =>
      obtain ⟨registered, _⟩ | ⟨_, rfl, _⟩ := send_existing up done
      · exact absurd registered absent
      · exact ⟨⟨up, unregistered⟩, .inl ⟨_, rfl⟩⟩
    | wrote held registered => exact absurd registered absent
    | hungUp registered => exact absurd registered absent
    | read held registered => exact absurd registered absent
    | handled done =>
      obtain ⟨_, _, task, serial, stack, _, rfl, _⟩ := Endpoint.handled_frame done
      exact ⟨⟨up, unregistered⟩, .inr ⟨_, rfl⟩⟩
  | connected down => exact absurd down (Option.isSome_iff_ne_none.mp up)
  | threw held registered => exact absurd registered absent

theorem stranded_run {e e' : Endpoint β} {hist : List (Label β)} (stranded : Stranded e)
    (run : Reaches Step e hist e') :
    Stranded e' ∧ ∀ l ∈ hist, (∃ data, l = .own (.refused data)) ∨
      ∃ dispatch, l = .own (.handled dispatch) := by
  induction run with
  | refl => exact ⟨stranded, fun l hl => absurd hl List.not_mem_nil⟩
  | next step rest ih =>
    obtain ⟨still, first⟩ := step.stranded stranded
    obtain ⟨last, later⟩ := ih still
    refine ⟨last, fun l hl => ?_⟩
    rcases List.mem_cons.mp hl with rfl | hl
    · exact first
    · exact later l hl

/-- Along a run: a `Connect` that throws leaves the connection as it was, and between
operations a socket is held only if it is in the poll. -/
structure Reconnectable (start : Endpoint β) (hist : List (Label β)) : Prop where
  restored : ∀ past data o e e', past ++ [.connected data o none] <+: hist →
    Reaches Step start past e → Step e (.connected data o none) e' → e'.conn = e.conn
  registered : ∀ past e, past <+: hist → Reaches Step start past e → Held e

end Connecting
open Connecting

/-- A run leaves the connection reconnectable exactly if the calls of every `Connect` in it let
it get to its end. -/
theorem reconnectable_iff {start e : Endpoint β} {hist : List (Connecting.Label β)}
    (started : Endpoint.Started start) (run : Reaches Connecting.Step start hist e) :
    Reconnectable start hist ↔ ∀ data o serial, .connected data o serial ∈ hist →
      o.passes start.conn.serviceId = true := by
  constructor
  · intro reconnectable data o serial member
    obtain ⟨past, rest, rfl⟩ := List.append_of_mem member
    obtain ⟨u, reached, tail⟩ := run.split
    obtain ⟨polled, same⟩ := polled_run started reached
    cases tail with
    | next step tail =>
      cases step.does polled with
      | connected down passes => rwa [same] at passes
      | failed down fails =>
        have here : past ++ [.connected data o none] <+: past ++ .connected data o none :: rest :=
          ⟨rest, by simp⟩
        have kept := reconnectable.restored past data o _ _ here reached step
        have none' : some u.nextSocket = none :=
          (congrArg LocalBusConnection.socket kept).trans down
        contradiction
  · intro passes
    have labels (past) (here : past <+: hist) :
        ∀ l ∈ past, l.Passes start.conn.serviceId := by
      intro l hl
      cases l with
      | connected data o serial => exact passes data o serial (here.subset hl)
      | own | threw => exact trivial
    constructor
    case restored =>
      intro past data o u v here reached step
      obtain ⟨polled, same⟩ := polled_run started reached
      have last := labels _ here (.connected data o none) (by simp)
      cases step.does polled with
      | failed down fails =>
        rw [same] at fails
        exact absurd (last.symm.trans fails) (by decide)
    case registered => exact fun past u here reached => held_run started reached (labels past here)

/-- A service that is started on demand: the first `connect` fails and the second does not. -/
theorem reconnectable_started :
    let o : Outcomes UInt8 := { connect := .error "no such file".toList }
    Reconnectable { conn := .create ⟨['a'], 1⟩ } [.connected [0, 0, 0, 0] o (some 0)] := by
  intro o
  have run : Reaches Connecting.Step { conn := .create ⟨['a'], 1⟩ }
      [.connected [0, 0, 0, 0] o (some 0)] _ := .single (.connected rfl rfl)
  refine (reconnectable_iff (.outgoing _) run).mpr fun data o' serial member => ?_
  obtain ⟨rfl, rfl, rfl⟩ := Connecting.Label.connected.inj (List.mem_singleton.mp member)
  decide +kernel

/-- The service cannot be started. The connection keeps the socket that is not in the poll,
and from then on every `Send` throws without trying to connect. -/
theorem connect_strands :
    let o : Outcomes UInt8 :=
      { connect := .error "no such file".toList, start := .error "failed to start".toList }
    let start : Endpoint UInt8 := { conn := .create ⟨['a'], 1⟩ }
    ∃ e, Reaches Connecting.Step start [.connected [0, 0, 0, 0] o none] e ∧
      e.conn.socket = some 0 ∧ e.conn.interest = none ∧
      ¬ Reconnectable start [.connected [0, 0, 0, 0] o none] ∧
      ∀ hist e', Reaches Connecting.Step e hist e' → ∀ l ∈ hist,
        (∃ data, l = .own (.refused data)) ∨ ∃ dispatch, l = .own (.handled dispatch) := by
  intro o start
  have step : Connecting.Step start (.connected [0, 0, 0, 0] o none) _ := .connected rfl rfl
  refine ⟨_, .single step, rfl, rfl, fun reconnectable => ?_, fun hist e' run => ?_⟩
  · have held := reconnectable.registered _ _ List.prefix_rfl (.single step)
    exact absurd (held rfl) (by decide)
  · exact (stranded_run ⟨rfl, rfl⟩ run).2

end PBus.Connection
