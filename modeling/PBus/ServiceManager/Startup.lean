import PBus.Foundation.Transition
import PBus.ServiceManager.Start

/-! Waiting for a started process: the calls of `Manager::start` over the life of the service
manager, and the pipe its signal handlers write to. The calls come one after the other, and
nothing empties the pipe between them. -/
namespace PBus.ServiceManager
open Transition

abbrev Pid := Int32

inductive EventType where
  | started
  | stopped
  deriving DecidableEq, Repr

/-- What a signal handler writes: `SIGUSR2` from a process that is up, `SIGCHLD` for one that
ended. -/
structure Event where
  type : EventType
  id : Pid
  deriving DecidableEq, Repr

/-- A call of `start` goes on waiting, or it ends. -/
inductive Outcome where
  | waiting
  | returned
  | threw (what : Str)
  deriving DecidableEq, Repr

/-- The body of the loop of `start` for an event that was read. -/
def onEvent (serviceId : ServiceId) (pid : Pid) (event : Event) : Outcome :=
  match event.type with
  | .started =>
    if event.id ≠ pid then .threw "spurious startup signal".toList else .returned
  | .stopped =>
    if pid = event.id then
      .threw ("process ".toList ++ serviceId.toString ++ " failed to start".toList)
    else .waiting

/-- A call of `start` in its loop: its child, and the events it has read so far. -/
structure Call where
  serviceId : ServiceId
  pid : Pid
  events : List Event := []
  deriving DecidableEq, Repr

/-- The pipe, and the call in progress. -/
structure Startup where
  pipe : List Event := []
  call : Option Call := none
  deriving DecidableEq, Repr

namespace Startup

inductive Label where
  | signalled (event : Event)
  /-- `start` was called and has cloned its child. -/
  | cloned (serviceId : ServiceId) (pid : Pid)
  /-- The call in progress has read an event. -/
  | read (call : Call) (event : Event) (outcome : Outcome)
  deriving DecidableEq, Repr

inductive Input where
  | signal (event : Event)
  | start (serviceId : ServiceId) (pid : Pid)
  | poll
  deriving DecidableEq, Repr

def perform (s : Startup) : Input → Option (Label × Startup)
  | .signal event => some (.signalled event, { s with pipe := s.pipe ++ [event] })
  | .start serviceId pid =>
    match s.call with
    | some _ => none
    | none => some (.cloned serviceId pid, { s with call := some { serviceId, pid } })
  | .poll =>
    match s.call, s.pipe with
    | some call, event :: rest =>
      let outcome := onEvent call.serviceId call.pid event
      let call' := if outcome = .waiting then some { call with events := call.events ++ [event] }
        else none
      some (.read call event outcome, { pipe := rest, call := call' })
    | _, _ => none

def Step (s : Startup) (l : Label) (s' : Startup) : Prop := ∃ input, s.perform input = some (l, s')

/-- What the first event of its own child says about a call. -/
def firstOwn (pid : Pid) (events : List Event) : Option EventType :=
  (events.find? fun event => event.id = pid).map Event.type

/-- The call waits until an event of its own child is read, returns if that says the child
has started, and throws if it says that it has stopped. -/
def Decided : Option EventType → Outcome → Prop
  | none, outcome => outcome = .waiting
  | some .started, outcome => outcome = .returned
  | some .stopped, outcome => ∃ what, outcome = .threw what

/-- The calls of a history end as the events of their own children say. -/
def OwnDecide (hist : List Label) : Prop :=
  ∀ call event outcome, .read call event outcome ∈ hist →
    Decided (firstOwn call.pid (call.events ++ [event])) outcome

/-- No call reads that another process has started. -/
def NoForeignStart (hist : List Label) : Prop :=
  ∀ call event outcome, .read call event outcome ∈ hist → event.type = .started →
    event.id = call.pid

end Startup

section Events
variable {serviceId : ServiceId} {pid id : Pid}

theorem onEvent_started (own : id = pid) : onEvent serviceId pid ⟨.started, id⟩ = .returned :=
  if_neg (not_not.mpr own)

theorem onEvent_spurious (serviceId : ServiceId) (foreign : id ≠ pid) :
    ∃ what, onEvent serviceId pid ⟨.started, id⟩ = .threw what := ⟨_, if_pos foreign⟩

theorem onEvent_failed (serviceId : ServiceId) (own : id = pid) :
    ∃ what, onEvent serviceId pid ⟨.stopped, id⟩ = .threw what := ⟨_, if_pos own.symm⟩

theorem onEvent_other (foreign : id ≠ pid) : onEvent serviceId pid ⟨.stopped, id⟩ = .waiting :=
  if_neg (Ne.symm foreign)

end Events

namespace Startup

theorem firstOwn_single (pid : Pid) (event : Event) :
    firstOwn pid [event] = if event.id = pid then some event.type else none := by
  by_cases own : event.id = pid <;> simp [firstOwn, own]

/-- One event decides a call as it should, unless it is the start of another process. -/
theorem decided_onEvent (serviceId : ServiceId) (pid : Pid) (event : Event) :
    Decided (firstOwn pid [event]) (onEvent serviceId pid event) ↔
      (event.type = .started → event.id = pid) := by
  obtain ⟨type, id⟩ := event
  rw [firstOwn_single]
  cases type with
  | started =>
    by_cases own : id = pid
    · rw [if_pos own, onEvent_started own]
      exact iff_of_true rfl fun _ => own
    · obtain ⟨what, threw⟩ := onEvent_spurious serviceId own
      rw [if_neg own, threw]
      simp [Decided, own]
  | stopped =>
    refine iff_of_true ?_ (by simp)
    by_cases own : id = pid
    · rw [if_pos own]
      exact onEvent_failed serviceId own
    · rw [if_neg own, onEvent_other own]
      rfl

theorem waiting_foreign {serviceId : ServiceId} {pid : Pid} {event : Event}
    (waits : onEvent serviceId pid event = .waiting) : firstOwn pid [event] = none := by
  rw [firstOwn_single, if_neg]
  intro own
  obtain ⟨type, id⟩ := event
  cases type with
  | started =>
    rw [onEvent_started own] at waits
    contradiction
  | stopped =>
    obtain ⟨what, threw⟩ := onEvent_failed serviceId own
    rw [threw] at waits
    contradiction

theorem firstOwn_concat {pid : Pid} {events : List Event} (foreign : firstOwn pid events = none)
    (event : Event) : firstOwn pid (events ++ [event]) = firstOwn pid [event] := by
  rw [firstOwn, Option.map_eq_none_iff] at foreign
  rw [firstOwn, List.find?_append, foreign, Option.none_or, firstOwn]

inductive Does (s : Startup) : Label → Startup → Prop where
  | signalled (event : Event) : Does s (.signalled event) { s with pipe := s.pipe ++ [event] }
  | cloned (serviceId : ServiceId) (pid : Pid) : s.call = none →
      Does s (.cloned serviceId pid) { s with call := some { serviceId, pid } }
  | waits {call : Call} {event : Event} {rest : List Event} : s.call = some call →
      s.pipe = event :: rest → onEvent call.serviceId call.pid event = .waiting →
      Does s (.read call event .waiting)
        { pipe := rest, call := some { call with events := call.events ++ [event] } }
  | ends {call : Call} {event : Event} {rest : List Event} {outcome : Outcome} :
      s.call = some call → s.pipe = event :: rest →
      onEvent call.serviceId call.pid event = outcome → outcome ≠ .waiting →
      Does s (.read call event outcome) { pipe := rest, call := none }

theorem Step.does {s s' : Startup} {l : Label} (step : Step s l s') : Does s l s' := by
  obtain ⟨input, performed⟩ := step
  cases input with
  | signal event =>
    obtain ⟨rfl, rfl⟩ := Prod.mk.inj (Option.some.inj performed)
    exact .signalled event
  | start serviceId pid =>
    simp only [perform] at performed
    split at performed
    · contradiction
    · rename_i idle
      obtain ⟨rfl, rfl⟩ := Prod.mk.inj (Option.some.inj performed)
      exact .cloned serviceId pid idle
  | poll =>
    simp only [perform] at performed
    split at performed
    · rename_i call event rest busy queued
      obtain ⟨rfl, rfl⟩ := Prod.mk.inj (Option.some.inj performed)
      by_cases waits : onEvent call.serviceId call.pid event = .waiting
      · rw [if_pos waits, waits]
        exact .waits busy queued waits
      · rw [if_neg waits]
        exact .ends busy queued rfl waits
    · contradiction

/-- No call has read an event of its own child before it ends. -/
structure Foreign (hist : List Label) (s : Startup) : Prop where
  call : ∀ call ∈ s.call, firstOwn call.pid call.events = none
  read : ∀ call event outcome, .read call event outcome ∈ hist →
    firstOwn call.pid call.events = none ∧
      outcome = onEvent call.serviceId call.pid event

theorem foreign {s : Startup} {hist : List Label} (run : Reaches Step {} hist s) :
    Foreign hist s := by
  refine run.history (P := Foreign) ?_ ⟨by simp, by simp⟩
  intro past s l s' before step
  cases step.does with
  | signalled event => exact ⟨before.call, by simpa using before.read⟩
  | cloned serviceId pid idle =>
    refine ⟨?_, by simpa using before.read⟩
    rintro call ⟨⟩
    rfl
  | @waits call event rest busy queued outcome =>
    have none := before.call call busy
    constructor
    case call =>
      rintro _ ⟨⟩
      rw [firstOwn_concat none, waiting_foreign outcome]
    case read =>
      intro call' event' outcome' read
      rcases List.mem_append.mp read with read | read
      · exact before.read call' event' outcome' read
      · obtain ⟨rfl, rfl, rfl⟩ : call' = call ∧ event' = event ∧ outcome' = .waiting := by
          simpa using read
        exact ⟨none, outcome.symm⟩
  | @ends call event rest outcome busy queued done some' =>
    refine ⟨by simp, ?_⟩
    intro call' event' outcome' read
    rcases List.mem_append.mp read with read | read
    · exact before.read call' event' outcome' read
    · obtain ⟨rfl, rfl, rfl⟩ : call' = call ∧ event' = event ∧ outcome' = outcome := by
        simpa using read
      exact ⟨before.call _ busy, done.symm⟩

/-- An event left in the pipe makes every later start fail: each call takes the event left by
the one before it and leaves its own. -/
theorem leftover_fails (serviceId : ServiceId) (left : Pid) (pids : List Pid)
    (fresh : (left :: pids).IsChain (· ≠ ·)) :
    ∃ hist, Reaches Step { pipe := [⟨.started, left⟩] } hist
        { pipe := [⟨.started, (left :: pids).getLast (by simp)⟩] } ∧
      ∀ pid ∈ pids, ∃ event what, .read ⟨serviceId, pid, []⟩ event (.threw what) ∈ hist := by
  induction pids generalizing left with
  | nil => exact ⟨[], .refl _, by simp⟩
  | cons pid pids ih =>
    obtain ⟨foreign, tail⟩ := List.isChain_cons_cons.mp fresh
    obtain ⟨hist, later, failed⟩ := ih pid tail
    obtain ⟨what, threw⟩ := onEvent_spurious serviceId foreign
    have taken : Step
        { pipe := [⟨.started, left⟩, ⟨.started, pid⟩], call := some ⟨serviceId, pid, []⟩ }
        (.read ⟨serviceId, pid, []⟩ ⟨.started, left⟩ (.threw what))
        { pipe := [⟨.started, pid⟩] } := ⟨.poll, by simp [perform, threw]⟩
    refine ⟨_, .next ⟨.start serviceId pid, rfl⟩ (.next ⟨.signal ⟨.started, pid⟩, rfl⟩
      (.next taken later)), ?_⟩
    intro pid' member
    rcases List.mem_cons.mp member with rfl | member
    · exact ⟨⟨.started, left⟩, what, by simp⟩
    · obtain ⟨event, what', read⟩ := failed pid' member
      exact ⟨event, what', by simp [read]⟩

end Startup
open Startup

/-- In a run every call of `start` ends as the events of its own child say, exactly if no
call reads that another process has started. -/
theorem own_decide_iff {s : Startup} {hist : List Startup.Label}
    (run : Reaches Step {} hist s) : OwnDecide hist ↔ NoForeignStart hist := by
  have each : ∀ call event outcome, .read call event outcome ∈ hist →
      (Decided (firstOwn call.pid (call.events ++ [event])) outcome ↔
        (event.type = .started → event.id = call.pid)) := by
    intro call event outcome read
    obtain ⟨none, rfl⟩ := (foreign run).read call event outcome read
    rw [firstOwn_concat none, decided_onEvent]
  constructor
  · intro own call event outcome read
    exact (each call event outcome read).mp (own call event outcome read)
  · intro own call event outcome read
    exact (each call event outcome read).mpr (own call event outcome read)

/-- A process that stops and one that starts, read in this order by the call for the second. -/
theorem own_decide_two :
    OwnDecide [.cloned ⟨['a'], 1⟩ 7, .signalled ⟨.stopped, 5⟩, .signalled ⟨.started, 7⟩,
      .read ⟨⟨['a'], 1⟩, 7, []⟩ ⟨.stopped, 5⟩ .waiting,
      .read ⟨⟨['a'], 1⟩, 7, [⟨.stopped, 5⟩]⟩ ⟨.started, 7⟩ .returned] := by
  have run : Reaches Step {} _ _ := .next ⟨.start ⟨['a'], 1⟩ 7, rfl⟩
    (.next ⟨.signal ⟨.stopped, 5⟩, rfl⟩ (.next ⟨.signal ⟨.started, 7⟩, rfl⟩
    (.next ⟨.poll, rfl⟩ (.next ⟨.poll, rfl⟩ (.refl _)))))
  refine (own_decide_iff run).mpr ?_
  intro call event outcome read started
  simp at read
  obtain ⟨rfl, rfl, rfl⟩ | ⟨rfl, rfl, rfl⟩ := read
  · contradiction
  · rfl

/-- The first child notifies and dies, and its two events are written in the other order. The
second start takes the notification left behind and throws, and leaves that of its own child. -/
theorem spurious_startup :
    ∃ hist s, Reaches Step {} hist s ∧
      hist = [.cloned ⟨['a'], 1⟩ 5, .signalled ⟨.stopped, 5⟩, .signalled ⟨.started, 5⟩,
        .read ⟨⟨['a'], 1⟩, 5, []⟩ ⟨.stopped, 5⟩ (.threw "process a-1 failed to start".toList),
        .cloned ⟨['b'], 1⟩ 7, .signalled ⟨.started, 7⟩,
        .read ⟨⟨['b'], 1⟩, 7, []⟩ ⟨.started, 5⟩ (.threw "spurious startup signal".toList)] ∧
      s.pipe = [⟨.started, 7⟩] ∧ ¬ OwnDecide hist := by
  refine ⟨_, _, .next ⟨.start ⟨['a'], 1⟩ 5, rfl⟩ (.next ⟨.signal ⟨.stopped, 5⟩, rfl⟩
    (.next ⟨.signal ⟨.started, 5⟩, rfl⟩ (.next ⟨.poll, rfl⟩
    (.next ⟨.start ⟨['b'], 1⟩ 7, rfl⟩ (.next ⟨.signal ⟨.started, 7⟩, rfl⟩
    (.next ⟨.poll, rfl⟩ (.refl _))))))), by decide +kernel, rfl, fun own => ?_⟩
  have waiting : onEvent ⟨['b'], 1⟩ 7 ⟨.started, 5⟩ = .waiting :=
    own ⟨⟨['b'], 1⟩, 7, []⟩ ⟨.started, 5⟩ _ (by simp)
  exact absurd waiting (by decide +kernel)

end PBus.ServiceManager
