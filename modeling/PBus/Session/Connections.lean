import PBus.Connection.Endpoint
import Mathlib.Logic.Function.Basic

/-! The connections of a session: `_connections`, the objects it points to, and the calls that
use them. A `Send` that has to wait for the service manager is in two steps, and anything may
happen in between; so may it between the arrival of an invoke and the answer to it. -/
namespace PBus
open Transition Connection
variable {β : Type} [Cell β]

abbrev Handle := Nat

/-- Where an invoke came from: the connection, and the socket it was on. -/
structure Origin where
  handle : Handle
  socket : SocketId
  deriving DecidableEq, Repr

/-- A `Session::Send` inside `LocalBusConnection::Connect`; `origin` is that of the invoke it
answers. -/
structure Sending (β : Type) where
  handle : Handle
  origin : Option Origin
  data : List β

/-- `ends h` is the `h`-th connection object. `owners h` is not in the source: it says for each
frame in the queue of `h` which invoke the frame answers. -/
structure Connections (β : Type) [Cell β] where
  table : ServiceId → Option Handle := fun _ => none
  ends : Handle → Endpoint β := fun _ => { conn := .create ⟨[], 0⟩ }
  count : Nat := 0
  sending : List (Sending β) := []
  owners : Handle → List (Option Origin) := fun _ => []

namespace Connections

inductive Label (β : Type) [Cell β] where
  /-- A `Send` on this connection has to wait for the service manager. -/
  | waiting (handle : Handle)
  /-- `Send` was called on this connection, for an answer or not, and returned or threw. -/
  | called (handle : Handle) (origin : Option Origin) (l : Connection.Label β)
  | added (handle : Handle) (serviceId : ServiceId)
  /-- A socket event; `front` is what the first frame of the queue answers. -/
  | event (handle : Handle) (front : Option Origin) (l : Connection.Label β)

/-- `Session::AddConnection` with the connection `LocalBus::Accept` makes. The object it replaces
lives on in a `Send` that is inside it and is destroyed otherwise: no socket event reaches it any
more. What `ends` keeps of an object that was handling a frame is memory the source has freed, so
that the guard of a run has to exclude its replacement. -/
def addConnection (s : Connections β) (serviceId : ServiceId) : Connections β :=
  { s with
    table := Function.update s.table serviceId (some s.count)
    ends := Function.update s.ends s.count { conn := .accept serviceId 0, nextSocket := 1 }
    count := s.count + 1 }

/-- `Session::Connect`. -/
def connect (s : Connections β) (serviceId : ServiceId) : Connections β × Handle :=
  match s.table serviceId with
  | some h => (s, h)
  | none =>
    ({ s with
        table := Function.update s.table serviceId (some s.count)
        ends := Function.update s.ends s.count { conn := .create serviceId }
        count := s.count + 1 }, s.count)

/-- A `Send` on connection `h` ended with `serial`, or without one, and left it as `e`. -/
def called (s : Connections β) (h : Handle) (origin : Option Origin) (e : Endpoint β)
    (serial : Option UInt32) : Connections β :=
  { s with
    ends := Function.update s.ends h e
    owners := match serial with
      | some _ => Function.update s.owners h (s.owners h ++ [origin])
      | none => s.owners }

def afterEvent (s : Connections β) (h : Handle) (e : Endpoint β) : Connections β :=
  { s with
    ends := Function.update s.ends h e
    owners := Function.update s.owners h ((s.owners h).drop
      ((s.ends h).conn.writeQueue.length - e.conn.writeQueue.length)) }

/-- A `Send` on this connection is inside `Connect`: the connection has a socket that is not
registered, so that another `Send` throws. -/
def Connecting (s : Connections β) (h : Handle) : Prop := ∃ x ∈ s.sending, x.handle = h

/-- Whom a `Send` goes to: any service, or for an answer the one on whose connection the
invoke that is being handled came in. -/
def Asked (s : Connections β) (serviceId : ServiceId) : Option Origin → Prop
  | none => True
  | some origin => serviceId = (s.ends origin.handle).conn.serviceId ∧
      ∃ a ∈ (s.ends origin.handle).stack, a.socket = origin.socket

/-- How the label of a `Send` reads. -/
def outcome (data : List β) : Option UInt32 → Connection.Label β
  | some serial => .sent serial data
  | none => .refused data

inductive Step : Connections β → Label β → Connections β → Prop where
  | send {s s' : Connections β} {serviceId : ServiceId} {origin : Option Origin} {h : Handle}
      {data : List β} {connects : Bool} {e : Endpoint β} {serial : Option UInt32} :
      s.Asked serviceId origin → s.connect serviceId = (s', h) → ¬ s'.Connecting h →
      (s'.ends h).send data connects = (e, serial) →
      Step s (.called h origin (outcome data serial)) (s'.called h origin e serial)
  | busy {s s' : Connections β} {serviceId : ServiceId} {origin : Option Origin} {h : Handle}
      {data : List β} :
      s.Asked serviceId origin → s.connect serviceId = (s', h) → s'.Connecting h →
      Step s (.called h origin (.refused data)) s'
  | wait {s s' : Connections β} {serviceId : ServiceId} {origin : Option Origin} {h : Handle}
      {data : List β} :
      s.Asked serviceId origin → s.connect serviceId = (s', h) → ¬ s'.Connecting h →
      (s'.ends h).conn.socket = none →
      Step s (.waiting h) { s' with sending := ⟨h, origin, data⟩ :: s'.sending }
  | finish {s : Connections β} {rest : List (Sending β)} {origin : Option Origin} {h : Handle}
      {data : List β} {connects : Bool} {e : Endpoint β} {serial : Option UInt32} :
      s.sending = ⟨h, origin, data⟩ :: rest → (s.ends h).send data connects = (e, serial) →
      Step s (.called h origin (outcome data serial))
        (called { s with sending := rest } h origin e serial)
  | add {s : Connections β} (serviceId : ServiceId) :
      Step s (.added s.count serviceId) (s.addConnection serviceId)
  | event {s : Connections β} {serviceId : ServiceId} {h : Handle} {l : Connection.Label β}
      {e : Endpoint β} :
      s.table serviceId = some h → Endpoint.Step (s.ends h) l e → l.calls = false →
      Step s (.event h (s.owners h).head?.join l) (s.afterEvent h e)

def of (h : Handle) (hist : List (Label β)) : List (Connection.Label β) :=
  hist.filterMap fun
    | .called h' _ l | .event h' _ l => if h' = h then some l else none
    | _ => none

theorem outcome_step {e e' : Endpoint β} (done : e.send data connects = (e', serial)) :
    Endpoint.Step e (outcome data serial) e' := by
  cases serial with
  | some serial => exact .sent done
  | none => exact .refused done

theorem connect_cases {s s' : Connections β} (done : s.connect serviceId = (s', h)) :
    s' = s ∧ s.table serviceId = some h ∨
      s.table serviceId = none ∧ h = s.count ∧ s' = { s with
        table := Function.update s.table serviceId (some s.count)
        ends := Function.update s.ends s.count { conn := .create serviceId }
        count := s.count + 1 } := by
  cases entry : s.table serviceId with
  | some h' =>
    simp only [connect, entry, Prod.mk.injEq] at done
    obtain ⟨rfl, rfl⟩ := done
    exact .inl ⟨rfl, rfl⟩
  | none =>
    simp only [connect, entry, Prod.mk.injEq] at done
    obtain ⟨rfl, rfl⟩ := done
    exact .inr ⟨rfl, rfl, rfl⟩

theorem connect_table (s : Connections β) (serviceId : ServiceId) :
    (s.connect serviceId).1.table serviceId = some (s.connect serviceId).2 := by
  cases entry : s.table serviceId <;> simp [connect, entry]

theorem of_called (h' h : Handle) (past : List (Label β)) (origin : Option Origin)
    (l : Connection.Label β) :
    of h' (past ++ [.called h origin l]) = of h' past ++ if h = h' then [l] else [] := by
  simp only [of, List.filterMap_append, List.filterMap_cons, List.filterMap_nil]
  split <;> simp_all

theorem of_event (h' h : Handle) (past : List (Label β)) (front : Option Origin)
    (l : Connection.Label β) :
    of h' (past ++ [.event h front l]) = of h' past ++ if h = h' then [l] else [] := by
  simp only [of, List.filterMap_append, List.filterMap_cons, List.filterMap_nil]
  split <;> simp_all

theorem of_waiting (h' h : Handle) (past : List (Label β)) :
    of h' (past ++ [.waiting h]) = of h' past := by
  simp [of, List.filterMap_append]

theorem of_added (h' h : Handle) (past : List (Label β)) (serviceId : ServiceId) :
    of h' (past ++ [.added h serviceId]) = of h' past := by
  simp [of, List.filterMap_append]

inductive Event (β : Type) where
  | send (origin : Option Origin) (serviceId : ServiceId) (data : List β) (connects : Bool)
  | wait (origin : Option Origin) (serviceId : ServiceId) (data : List β)
  | finish (connects : Bool)
  | add (serviceId : ServiceId)
  | event (serviceId : ServiceId) (event : Endpoint.Event β)

instance (s : Connections β) (h : Handle) : Decidable (s.Connecting h) :=
  inferInstanceAs (Decidable (∃ x ∈ s.sending, x.handle = h))

instance (s : Connections β) (serviceId : ServiceId) (origin : Option Origin) :
    Decidable (s.Asked serviceId origin) := by
  cases origin <;> simp only [Asked] <;> infer_instance

def perform (s : Connections β) : Event β → Option (Label β × Connections β)
  | .send origin serviceId data connects =>
    if s.Asked serviceId origin then
      let (s', h) := s.connect serviceId
      if s'.Connecting h then some (.called h origin (.refused data), s')
      else
        let (e, serial) := (s'.ends h).send data connects
        some (.called h origin (outcome data serial), s'.called h origin e serial)
    else none
  | .wait origin serviceId data =>
    let (s', h) := s.connect serviceId
    if s.Asked serviceId origin ∧ ¬ s'.Connecting h ∧ (s'.ends h).conn.socket = none then
      some (.waiting h, { s' with sending := ⟨h, origin, data⟩ :: s'.sending })
    else none
  | .finish connects =>
    match s.sending with
    | [] => none
    | ⟨h, origin, data⟩ :: rest =>
      let (e, serial) := (s.ends h).send data connects
      some (.called h origin (outcome data serial),
        called { s with sending := rest } h origin e serial)
  | .add serviceId => some (.added s.count serviceId, s.addConnection serviceId)
  | .event serviceId event =>
    match s.table serviceId with
    | none => none
    | some h =>
      match (s.ends h).perform event with
      | some (l, e) =>
        if l.calls = false then some (.event h (s.owners h).head?.join l, s.afterEvent h e)
        else none
      | none => none

theorem perform_step {s s' : Connections β} {l : Label β} {event : Event β}
    (performed : s.perform event = some (l, s')) : Step s l s' := by
  cases event with
  | send origin serviceId data connects =>
    cases found : s.connect serviceId with
    | mk s₁ h =>
      simp only [perform, found, Option.ite_none_right_eq_some] at performed
      obtain ⟨asked, performed⟩ := performed
      split at performed <;> rename_i connecting <;>
        simp only [Option.some.injEq, Prod.mk.injEq] at performed <;>
        obtain ⟨rfl, rfl⟩ := performed
      · exact .busy asked found connecting
      · exact .send asked found connecting rfl
  | wait origin serviceId data =>
    cases found : s.connect serviceId with
    | mk s₁ h =>
      simp only [perform, found, possible_iff] at performed
      obtain ⟨⟨asked, connecting, socket⟩, rfl, rfl⟩ := performed
      exact .wait asked found connecting socket
  | finish connects =>
    cases sending : s.sending with
    | nil => simp [perform, sending] at performed
    | cons top rest =>
      simp only [perform, sending, Option.some.injEq, Prod.mk.injEq] at performed
      obtain ⟨rfl, rfl⟩ := performed
      exact .finish sending rfl
  | add serviceId =>
    simp only [perform, Option.some.injEq, Prod.mk.injEq] at performed
    obtain ⟨rfl, rfl⟩ := performed
    exact .add serviceId
  | event serviceId event =>
    cases entry : s.table serviceId with
    | none => simp [perform, entry] at performed
    | some h =>
      cases acted : (s.ends h).perform event with
      | none => simp [perform, entry, acted] at performed
      | some outcome =>
        obtain ⟨l', e⟩ := outcome
        simp only [perform, entry, acted, possible_iff] at performed
        obtain ⟨calls, rfl, rfl⟩ := performed
        exact .event entry (Endpoint.perform_step acted) calls

theorem played (C : List (Label β) → Connections β → Label β → Prop)
    [∀ past s l, Decidable (C past s l)] (start : Connections β) (events : List (Event β)) :
    Guarded Step C start (play perform C [] start events).1 (play perform C [] start events).2 :=
  play_guarded perform C perform_step .start events

end Connections
end PBus
