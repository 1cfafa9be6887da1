import Mathlib.Logic.Function.Basic
import PBus.Foundation.Transition

/-! How many processes of a service there are: clients that look for the service, as
`LocalBusConnection::Connect` does, the service manager that handles their start requests, and
the processes it makes. Whether the service is up is found out by the clients; `Manager::start`
clones without looking. -/
namespace PBus.ServiceManager
open Transition

/-- A client session, and a process of the service, by the number of its creation. -/
abbrev Client := Nat
abbrev Instance := Nat

/-- Where a client is with the service. -/
inductive Stage where
  | away
  /-- Its first attempt to connect failed and it waits for the answer to its start request. -/
  | asked
  /-- `start` has returned; it connects a second time. -/
  | started
  | connected (process : Instance)
  deriving DecidableEq, Repr

structure Instances where
  clients : Client → Stage := fun _ => .away
  /-- The start requests the manager has not handled yet. -/
  requests : List Client := []
  /-- Whose request `Manager::start` is handling. -/
  call : Option Client := none
  /-- The processes that are alive. -/
  alive : List Instance := []
  /-- Those of them whose `LocalBus` listens. -/
  listening : List Instance := []
  /-- Whose socket is at the path of the service, even if it is dead. -/
  socket : Option Instance := none
  next : Instance := 0

namespace Instances

inductive Label where
  | connected (client : Client) (process : Instance)
  /-- A first attempt failed; `pending` are the start requests waiting already, `alive` the
  processes there are. -/
  | asked (client : Client) (pending : List Client) (alive : List Instance)
  /-- A second attempt failed, and `Connect` throws. -/
  | refused (client : Client)
  /-- The wait for an answer timed out. -/
  | gaveUp (client : Client)
  /-- `Manager::start` cloned a process for a request; `alive` are the ones before. -/
  | spawned (client : Client) (process : Instance) (alive : List Instance)
  /-- `Manager::start` threw before or in the clone. -/
  | rejected (client : Client)
  | answered (client : Client) (returned : Bool)
  /-- `LocalBus` unlinked the path and listens on it; `replaced` is the process that did. -/
  | listened (process : Instance) (replaced : Option Instance)
  | exited (process : Instance)
  | hungUp (client : Client)
  deriving DecidableEq, Repr

inductive Input where
  | connect (client : Client)
  | giveUp (client : Client)
  | spawn (client : Client)
  | reject (client : Client)
  | answer (returned : Bool)
  | listen (process : Instance)
  | exit (process : Instance)
  | hangUp (client : Client)
  deriving DecidableEq, Repr

/-- The process a connect to the path of the service reaches. -/
def reachable (k : Instances) : Option Instance := k.socket.filter fun p => p ∈ k.listening

def become (k : Instances) (client : Client) (stage : Stage) : Instances :=
  { k with clients := Function.update k.clients client stage }

/-- The answer to a start request, unless its client does not wait for it any more. -/
def answerTo (k : Instances) (client : Client) (returned : Bool) : Instances :=
  if k.clients client = .asked then k.become client (if returned then .started else .away) else k

def perform (k : Instances) : Input → Option (Label × Instances)
  | .connect client =>
    match k.clients client, k.reachable with
    | .away, some p | .started, some p => some (.connected client p, k.become client (.connected p))
    | .away, none =>
      some (.asked client k.requests k.alive,
        { k.become client .asked with requests := k.requests ++ [client] })
    | .started, none => some (.refused client, k.become client .away)
    | .asked, _ | .connected _, _ => none
  | .giveUp client =>
    if k.clients client = .asked then some (.gaveUp client, k.become client .away) else none
  | .spawn client =>
    if k.call = none ∧ client ∈ k.requests then
      some (.spawned client k.next k.alive, { k with
        requests := k.requests.erase client, call := some client,
        alive := k.alive ++ [k.next], next := k.next + 1 })
    else none
  | .reject client =>
    if k.call = none ∧ client ∈ k.requests then
      some (.rejected client,
        { k.answerTo client false with requests := k.requests.erase client })
    else none
  | .answer returned =>
    match k.call with
    | some client =>
      some (.answered client returned, { k.answerTo client returned with call := none })
    | none => none
  | .listen p =>
    if p ∈ k.alive ∧ p ∉ k.listening then
      some (.listened p k.reachable,
        { k with listening := k.listening ++ [p], socket := some p })
    else none
  | .exit p =>
    if p ∈ k.alive then
      some (.exited p, { k with alive := k.alive.erase p, listening := k.listening.erase p })
    else none
  | .hangUp client =>
    match k.clients client with
    | .connected p => if p ∈ k.alive then none else some (.hungUp client, k.become client .away)
    | _ => none

def Step (k : Instances) (l : Label) (k' : Instances) : Prop :=
  ∃ input, k.perform input = some (l, k')

/-- What a step does to the start requests and the processes. -/
inductive Does (k : Instances) : Label → Instances → Prop where
  | quiet : (∀ client pending alive, l ≠ .asked client pending alive) →
      (∀ client p alive, l ≠ .spawned client p alive) → (∀ p replaced, l ≠ .listened p replaced) →
      (k'.requests = k.requests ∨ ∃ client ∈ k.requests, k'.requests = k.requests.erase client) →
      k'.alive = k.alive → k'.listening = k.listening → Does k l k'
  | asked (client : Client) : k'.requests = k.requests ++ [client] → k'.alive = k.alive →
      k'.listening = k.listening → Does k (.asked client k.requests k.alive) k'
  | spawned (client : Client) : client ∈ k.requests → k'.requests = k.requests.erase client →
      k'.alive = k.alive ++ [k.next] → k'.listening = k.listening →
      Does k (.spawned client k.next k.alive) k'
  | listened (p : Instance) : p ∈ k.alive → p ∉ k.listening → k'.requests = k.requests →
      k'.alive = k.alive → k'.listening = k.listening ++ [p] →
      Does k (.listened p k.reachable) k'
  | exited (p : Instance) : k'.requests = k.requests → k'.alive = k.alive.erase p →
      k'.listening = k.listening.erase p → Does k (.exited p) k'

theorem answerTo_frame (k : Instances) (client : Client) (returned : Bool) :
    (k.answerTo client returned).requests = k.requests ∧
      (k.answerTo client returned).alive = k.alive ∧
      (k.answerTo client returned).listening = k.listening := by
  unfold answerTo
  split <;> exact ⟨rfl, rfl, rfl⟩

theorem Step.does {k k' : Instances} {l : Label} (step : Step k l k') : Does k l k' := by
  obtain ⟨input, performed⟩ := step
  cases input with
  | connect client =>
    simp only [perform] at performed
    split at performed <;> (try contradiction) <;>
      obtain ⟨rfl, rfl⟩ := Prod.mk.inj (Option.some.inj performed)
    · exact .quiet (by simp) (by simp) (by simp) (.inl rfl) rfl rfl
    · exact .quiet (by simp) (by simp) (by simp) (.inl rfl) rfl rfl
    · exact .asked client rfl rfl rfl
    · exact .quiet (by simp) (by simp) (by simp) (.inl rfl) rfl rfl
  | giveUp client =>
    simp only [perform, possible_iff] at performed
    obtain ⟨-, rfl, rfl⟩ := performed
    exact .quiet (by simp) (by simp) (by simp) (.inl rfl) rfl rfl
  | spawn client =>
    simp only [perform, possible_iff] at performed
    obtain ⟨⟨-, asked⟩, rfl, rfl⟩ := performed
    exact .spawned client asked rfl rfl rfl
  | reject client =>
    simp only [perform, possible_iff] at performed
    obtain ⟨⟨-, asked⟩, rfl, rfl⟩ := performed
    obtain ⟨-, alive, listening⟩ := k.answerTo_frame client false
    exact .quiet (by simp) (by simp) (by simp) (.inr ⟨client, asked, rfl⟩) alive listening
  | answer returned =>
    simp only [perform] at performed
    split at performed
    · rename_i client busy
      obtain ⟨rfl, rfl⟩ := Prod.mk.inj (Option.some.inj performed)
      obtain ⟨requests, alive, listening⟩ := k.answerTo_frame client returned
      exact .quiet (by simp) (by simp) (by simp) (.inl requests) alive listening
    · contradiction
  | listen p =>
    simp only [perform, possible_iff] at performed
    obtain ⟨⟨alive, silent⟩, rfl, rfl⟩ := performed
    exact .listened p alive silent rfl rfl rfl
  | exit p =>
    simp only [perform, possible_iff] at performed
    obtain ⟨-, rfl, rfl⟩ := performed
    exact .exited p rfl rfl rfl
  | hangUp client =>
    simp only [perform] at performed
    split at performed
    · simp only [Option.ite_none_left_eq_some, Option.some.injEq, Prod.mk.injEq] at performed
      obtain ⟨-, rfl, rfl⟩ := performed
      exact .quiet (by simp) (by simp) (by simp) (.inl rfl) rfl rfl
    · contradiction

/-- At most one process of the service is alive. -/
def AtMostOne (k : Instances) : Prop := k.alive.length ≤ 1

/-- The manager handled every start request when no process was alive. -/
def SpawnedAlone (hist : List Label) : Prop :=
  ∀ client p alive, .spawned client p alive ∈ hist → alive = []

/-- No first attempt failed while a start request was waiting or a process was alive. -/
def AskedAlone (hist : List Label) : Prop :=
  ∀ client pending alive, .asked client pending alive ∈ hist → pending = [] ∧ alive = []

/-- No process was alive when the manager handled a start request, and no `LocalBus` took the
path over from a process that is alive. -/
def NoSecond (hist : List Label) : Prop :=
  SpawnedAlone hist ∧ ∀ p q, .listened p (some q) ∉ hist

/-- What listens is alive, and listens once. -/
structure Listening (k : Instances) : Prop where
  nodup : k.listening.Nodup
  alive : ∀ p ∈ k.listening, p ∈ k.alive

theorem Listening.step {k k' : Instances} {l : Label} (before : Listening k) (does : Does k l k') :
    Listening k' := by
  cases does with
  | quiet _ _ _ _ alive listening | asked client requests alive listening =>
    exact ⟨listening ▸ before.nodup, by rw [listening, alive]; exact before.alive⟩
  | spawned client asked requests alive listening =>
    refine ⟨listening ▸ before.nodup, ?_⟩
    rw [listening, alive]
    exact fun p hp => List.mem_append_left _ (before.alive p hp)
  | listened p up silent requests alive listening =>
    constructor
    case nodup =>
      rw [listening, List.nodup_append]
      refine ⟨before.nodup, by simp, ?_⟩
      rintro q hq _ (_ | ⟨_, ⟨⟩⟩) rfl
      exact silent hq
    case alive =>
      rw [listening, alive]
      intro q hq
      rcases List.mem_append.mp hq with hq | hq
      · exact before.alive q hq
      · exact List.mem_singleton.mp hq ▸ up
  | exited p requests alive listening =>
    constructor
    case nodup =>
      rw [listening]
      exact before.nodup.erase p
    case alive =>
      rw [listening, alive]
      intro q hq
      obtain ⟨other, hq⟩ := before.nodup.mem_erase_iff.mp hq
      exact (List.mem_erase_of_ne other).mpr (before.alive q hq)

theorem SpawnedAlone.initial {past : List Label} {l : Label} (all : SpawnedAlone (past ++ [l])) :
    SpawnedAlone past :=
  fun client p alive spawned => all client p alive (List.mem_append_left _ spawned)

theorem AskedAlone.initial {past : List Label} {l : Label} (all : AskedAlone (past ++ [l])) :
    AskedAlone past :=
  fun client pending alive asked => all client pending alive (List.mem_append_left _ asked)

theorem atMostOne {k : Instances} {past : List Label} (run : Reaches Step {} past k) :
    SpawnedAlone past → AtMostOne k := by
  refine run.history (P := fun past k => SpawnedAlone past → AtMostOne k) ?_ fun _ => Nat.zero_le _
  intro past k l k' before step all
  have one := before all.initial
  cases step.does with
  | quiet _ _ _ _ alive | asked client requests alive | listened p _ _ requests alive =>
    rw [AtMostOne, alive]
    exact one
  | spawned client asked requests alive =>
    rw [AtMostOne, alive, all client k.next k.alive (by simp)]
    exact Nat.le_refl 1
  | exited p requests alive =>
    rw [AtMostOne, alive]
    exact Nat.le_trans List.length_erase_le one

/-- As long as nobody asks while a request waits or a process is alive, there is one of them
at most. -/
structure Alone (past : List Label) (k : Instances) : Prop where
  listening : Listening k
  one : AskedAlone past → k.requests.length + k.alive.length ≤ 1
  second : AskedAlone past → NoSecond past

theorem Alone.one_step {past : List Label} {k k' : Instances} {l : Label} (before : Alone past k)
    (does : Does k l k') (all : AskedAlone (past ++ [l])) :
    k'.requests.length + k'.alive.length ≤ 1 := by
  have one := before.one all.initial
  cases does with
  | quiet _ _ _ requests alive =>
    rw [alive]
    rcases requests with same | ⟨client, _, fewer⟩
    · rw [same]
      exact one
    · have := k.requests.length_erase_le (a := client)
      rw [fewer]
      omega
  | asked client requests alive =>
    obtain ⟨none, dead⟩ := all client k.requests k.alive (by simp)
    rw [requests, alive, none, dead]
    exact Nat.le_refl 1
  | spawned client asked requests alive =>
    have fewer := List.length_erase_of_mem asked
    have some' := List.length_pos_of_mem asked
    rw [requests, alive, List.length_append, List.length_singleton]
    omega
  | listened p _ _ requests alive =>
    rw [requests, alive]
    exact one
  | exited p requests alive =>
    have := k.alive.length_erase_le (a := p)
    rw [requests, alive]
    omega

theorem Alone.second_step {past : List Label} {k k' : Instances} {l : Label}
    (before : Alone past k) (does : Does k l k') (all : AskedAlone (past ++ [l])) :
    NoSecond (past ++ [l]) := by
  have one := before.one all.initial
  obtain ⟨spawned, listened⟩ := before.second all.initial
  have unchanged (spawns : ∀ client p alive, l ≠ .spawned client p alive)
      (listens : ∀ p replaced, l ≠ .listened p replaced) : NoSecond (past ++ [l]) := by
    constructor
    · intro client p alive here
      rcases List.mem_append.mp here with here | here
      · exact spawned client p alive here
      · exact absurd (List.mem_singleton.mp here).symm (spawns client p alive)
    · intro p q here
      rcases List.mem_append.mp here with here | here
      · exact listened p q here
      · exact absurd (List.mem_singleton.mp here).symm (listens p (some q))
  cases does with
  | quiet _ spawns listens => exact unchanged spawns listens
  | asked | exited => exact unchanged (by simp) (by simp)
  | spawned client asked requests alive =>
    refine ⟨?_, by simpa using listened⟩
    intro client' p alive' here
    rcases List.mem_append.mp here with here | here
    · exact spawned client' p alive' here
    · obtain ⟨rfl, rfl, rfl⟩ : client' = client ∧ p = k.next ∧ alive' = k.alive := by
        simpa using here
      have some' := List.length_pos_of_mem asked
      exact List.eq_nil_of_length_eq_zero (by omega)
  | listened p up silent =>
    refine ⟨by simpa [SpawnedAlone] using spawned, ?_⟩
    intro p' q here
    rcases List.mem_append.mp here with here | here
    · exact listened p' q here
    · -- the process replaced and the one that listens now would be two
      obtain ⟨rfl, reached⟩ : p' = p ∧ some q = k.reachable := by simpa using here
      obtain ⟨-, listening⟩ := Option.filter_eq_some_iff.mp reached.symm
      have listening : q ∈ k.listening := by simpa using listening
      have other : q ≠ p' := by
        rintro rfl
        exact silent listening
      have two := (List.mem_erase_of_ne other).mpr (before.listening.alive q listening)
      have fewer := List.length_erase_of_mem up
      have some' := List.length_pos_of_mem two
      omega

theorem alone {k : Instances} {past : List Label} (run : Reaches Step {} past k) :
    Alone past k := by
  refine run.history (P := Alone) ?_
    ⟨⟨List.nodup_nil, by simp⟩, fun _ => by simp, fun _ => ⟨by simp [SpawnedAlone], by simp⟩⟩
  intro past k l k' before step
  exact ⟨before.listening.step step.does, before.one_step step.does, before.second_step step.does⟩

end Instances
open Instances

/-- At most one process of the service is alive in every state of a run, exactly if the
manager handles no start request while one is alive. So it is whenever no client asks while a
request waits or a process is alive, and then no process is replaced at its socket. -/
theorem at_most_one_instance {k : Instances} {hist : List Instances.Label}
    (run : Reaches Step {} hist k) :
    ((∀ past k', past <+: hist → Reaches Step {} past k' → AtMostOne k') ↔ SpawnedAlone hist) ∧
    (AskedAlone hist →
      (∀ past k', past <+: hist → Reaches Step {} past k' → AtMostOne k') ∧ NoSecond hist) := by
  have enough (all : SpawnedAlone hist) : ∀ past k', past <+: hist →
      Reaches Step {} past k' → AtMostOne k' := by
    intro past k' here reached
    exact atMostOne reached fun client p alive spawned => all client p alive (here.subset spawned)
  refine ⟨⟨?_, enough⟩, ?_⟩
  · intro one client p alive spawned
    obtain ⟨before, after, rfl⟩ := List.append_of_mem spawned
    obtain ⟨k₁, reached, rest⟩ := run.split
    cases rest with
    | next step tail =>
      have next := one (before ++ [.spawned client p alive]) _ ⟨after, by simp⟩ (reached.snoc step)
      cases step.does with
      | quiet _ spawns => exact absurd rfl (spawns client p alive)
      | spawned client asked requests grown =>
        rw [AtMostOne, grown, List.length_append, List.length_singleton] at next
        exact List.eq_nil_of_length_eq_zero (by omega)
  · intro asked
    have second := (alone run).second asked
    exact ⟨enough second.1, second⟩

/-- One client has the service started, a second one finds it up. -/
theorem one_instance :
    NoSecond [.asked 0 [] [], .spawned 0 0 [], .listened 0 none, .answered 0 true, .connected 0 0,
      .connected 1 0] := by
  have run : Reaches Step {} _ _ := .next ⟨.connect 0, rfl⟩ (.next ⟨.spawn 0, rfl⟩
    (.next ⟨.listen 0, rfl⟩ (.next ⟨.answer true, rfl⟩ (.next ⟨.connect 0, rfl⟩
    (.next ⟨.connect 1, rfl⟩ (.refl _))))))
  refine ((at_most_one_instance run).2 ?_).2
  intro client pending alive asked
  simp at asked
  exact asked.2

/-- Two clients find the service down before the manager has handled the first request. It
handles both: two processes are alive, and the second takes the path over from the first. -/
theorem two_instances :
    ∃ k, Reaches Step {} [.asked 0 [] [], .asked 1 [0] [], .spawned 0 0 [], .listened 0 none,
        .answered 0 true, .connected 0 0, .spawned 1 1 [0], .listened 1 (some 0)] k ∧
      k.alive = [0, 1] ∧ k.socket = some 1 ∧ ¬ AtMostOne k := by
  refine ⟨_, .next ⟨.connect 0, rfl⟩ (.next ⟨.connect 1, rfl⟩ (.next ⟨.spawn 0, rfl⟩
    (.next ⟨.listen 0, rfl⟩ (.next ⟨.answer true, rfl⟩ (.next ⟨.connect 0, rfl⟩
    (.next ⟨.spawn 1, rfl⟩ (.next ⟨.listen 1, rfl⟩ (.refl _)))))))), rfl, rfl, ?_⟩
  exact Nat.not_le_of_lt (Nat.lt_succ_self 1)

end PBus.ServiceManager
