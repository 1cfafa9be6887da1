import PBus.Connection.Outgoing
import PBus.Session.Connections

/-! What becomes of the frames a session has accepted. `AddConnection` puts the accepted
connection in the place of the one under the same identifier, and what that one had queued is
gone with it, unless it had nothing queued. -/
namespace PBus
open Transition Connection
variable {β : Type} [Cell β]

namespace Connections

/-- `AddConnection` takes the place only of a connection with an empty queue on which no
`Send` is under way and no frame is being handled, and no new socket finds a frame partly
written. -/
def Keeps (_past : List (Label β)) (s : Connections β) : Label β → Prop
  | .called h _ l => Outgoing.Unbroken (s.ends h) l
  | .added _ serviceId => ∀ h ∈ s.table serviceId,
      (s.ends h).conn.writeQueue.isEmpty = true ∧ (s.ends h).stack.isEmpty = true ∧
        ¬ s.Connecting h
  | _ => True

instance (past : List (Label β)) (s : Connections β) (l : Label β) : Decidable (Keeps past s l) :=
  match l with
  | .called h _ l => inferInstanceAs (Decidable (Outgoing.Unbroken (s.ends h) l))
  | .added _ serviceId =>
    inferInstanceAs (Decidable (∀ h ∈ s.table serviceId,
      (s.ends h).conn.writeQueue.isEmpty = true ∧ (s.ends h).stack.isEmpty = true ∧
        ¬ s.Connecting h))
  | .waiting _ | .event _ _ _ => inferInstanceAs (Decidable True)

/-- The frame is in the queue of a connection that `_connections` leads to. -/
def Queued (hist : List (Label β)) (s : Connections β) (h : Handle) (i : Nat) : Prop :=
  (∃ serviceId, s.table serviceId = some h) ∧ Outgoing.gone (of h hist) (s.ends h) ≤ i ∧
    (s.ends h).conn.writeQueue.map WriteTask.data =
      (sentFrames (of h hist)).drop (Outgoing.gone (of h hist) (s.ends h))

namespace Loss

/-- Whatever has something to write, or is about to, can be reached. -/
structure Invariant (hist : List (Label β)) (s : Connections β) : Prop where
  listed : ∀ serviceId h, s.table serviceId = some h → h < s.count
  unmade : ∀ h, s.count ≤ h → of h hist = [] ∧ (s.ends h).conn.writeQueue = []
  stream : ∀ h, h < s.count → Outgoing.Invariant (fun _ => True) (of h hist) (s.ends h)
  reachable : ∀ h, (s.ends h).conn.writeQueue ≠ [] ∨ s.Connecting h →
    ∃ serviceId, s.table serviceId = some h

theorem Invariant.insert {hist : List (Label β)} {s : Connections β} (inv : Invariant hist s)
    {e : Endpoint β} (started : e.Started)
    (replaced : ∀ h, s.table serviceId = some h →
      (s.ends h).conn.writeQueue = [] ∧ ¬ s.Connecting h) :
    Invariant hist { s with
      table := Function.update s.table serviceId (some s.count)
      ends := Function.update s.ends s.count e
      count := s.count + 1 } := by
  constructor
  case listed =>
    intro id h entry
    by_cases here : id = serviceId
    · subst here
      obtain rfl : s.count = h := by simpa using entry
      exact Nat.lt_succ_self _
    · have entry : s.table id = some h := by simpa [here] using entry
      exact Nat.lt_succ_of_lt (inv.listed id h entry)
  case unmade =>
    intro h later
    have later : s.count + 1 ≤ h := later
    have other : h ≠ s.count := by omega
    simpa [other] using inv.unmade h (by omega)
  case stream =>
    intro h made
    have made : h < s.count + 1 := made
    by_cases new : h = s.count
    · subst new
      simpa [(inv.unmade s.count (Nat.le_refl _)).1] using
        Outgoing.invariant_start started trivial
    · simpa [new] using inv.stream h (by omega)
  case reachable =>
    intro h busy
    by_cases new : h = s.count
    · exact ⟨serviceId, by simp [new]⟩
    · replace busy : (s.ends h).conn.writeQueue ≠ [] ∨ s.Connecting h :=
        busy.imp_left fun queue => by simpa [new] using queue
      obtain ⟨id, entry⟩ := inv.reachable h busy
      refine ⟨id, ?_⟩
      by_cases here : id = serviceId
      · subst here
        obtain ⟨queue, connecting⟩ := replaced h entry
        rcases busy with waiting | busy
        · exact absurd queue waiting
        · exact absurd busy connecting
      · simpa [here] using entry

theorem Invariant.connect {hist : List (Label β)} {s s' : Connections β} (inv : Invariant hist s)
    (done : s.connect serviceId = (s', h)) :
    Invariant hist s' ∧ s'.table serviceId = some h ∧
      (s'.ends h = s.ends h ∨ (s'.ends h).conn.writeQueue = []) := by
  rcases connect_cases done with ⟨rfl, entry⟩ | ⟨absent, rfl, rfl⟩
  · exact ⟨inv, entry, .inl rfl⟩
  · refine ⟨inv.insert (.outgoing serviceId) (by simp [absent]), by simp, .inr ?_⟩
    simp [LocalBusConnection.create]

theorem Invariant.act {past : List (Label β)} {s s' : Connections β} (inv : Invariant past s)
    {h : Handle} {l : Label β} {act : Connection.Label β} {e : Endpoint β}
    (entry : ∃ serviceId, s.table serviceId = some h)
    (acts : ∀ h', of h' (past ++ [l]) = of h' past ++ if h = h' then [act] else [])
    (next : Outgoing.Invariant (fun _ => True) (of h past ++ [act]) e)
    (table : s'.table = s.table) (count : s'.count = s.count)
    (ends : s'.ends = Function.update s.ends h e)
    (sending : ∀ h, s'.Connecting h → s.Connecting h) : Invariant (past ++ [l]) s' := by
  have made : h < s.count := by
    obtain ⟨serviceId, entry⟩ := entry
    exact inv.listed serviceId h entry
  constructor
  case listed =>
    rw [table, count]
    exact inv.listed
  case unmade =>
    intro h' later
    rw [count] at later
    have other : h ≠ h' := Nat.ne_of_lt (Nat.lt_of_lt_of_le made later)
    rw [acts, if_neg other, List.append_nil, ends, Function.update_of_ne (Ne.symm other)]
    exact inv.unmade h' later
  case stream =>
    intro h' made
    rw [count] at made
    by_cases here : h = h'
    · subst here
      rw [acts, if_pos rfl, ends, Function.update_self]
      exact next
    · rw [acts, if_neg here, List.append_nil, ends, Function.update_of_ne (Ne.symm here)]
      exact inv.stream h' made
  case reachable =>
    intro h' busy
    rw [table]
    by_cases here : h = h'
    · exact here ▸ entry
    · rw [ends, Function.update_of_ne (Ne.symm here)] at busy
      exact inv.reachable h' (busy.imp_right (sending h'))

theorem unbroken_empty {e : Endpoint β} (empty : e.conn.writeQueue = []) (l : Connection.Label β) :
    Outgoing.Unbroken e l := by
  cases l <;> simp [Outgoing.Unbroken, LocalBusConnection.atBoundary, empty]

theorem Invariant.takes {past : List (Label β)} {s : Connections β} (inv : Invariant past s)
    (entry : ∃ serviceId, s.table serviceId = some h) (step : Endpoint.Step (s.ends h) l e)
    (unbroken : Outgoing.Unbroken (s.ends h) l) :
    Outgoing.Invariant (fun _ => True) (of h past ++ [l]) e := by
  obtain ⟨serviceId, entry⟩ := entry
  apply Outgoing.invariant_step (inv.stream h (inv.listed serviceId h entry)) step unbroken
  intros
  trivial

theorem invariant_step {past : List (Label β)} {s s' : Connections β} {l : Label β}
    (inv : Invariant past s) (step : Step s l s') (keeps : Keeps past s l) :
    Invariant (past ++ [l]) s' := by
  cases step with
  | @send s₁ _ origin h data _ _ serial _ found _ done =>
    obtain ⟨inv, entry, same⟩ := inv.connect found
    have unbroken : Outgoing.Unbroken (s₁.ends h) (outcome data serial) := by
      rcases same with same | empty
      · rw [same]
        exact keeps
      · exact unbroken_empty empty _
    exact inv.act ⟨_, entry⟩ (of_called · h past origin _)
      (inv.takes ⟨_, entry⟩ (outcome_step done) unbroken) rfl rfl rfl (fun _ => id)
  | @busy _ _ origin h _ _ found _ =>
    obtain ⟨inv, entry, _⟩ := inv.connect found
    have stream := inv.stream h (inv.listed _ _ entry)
    apply inv.act ⟨_, entry⟩ (of_called · h past origin _) _ rfl rfl
      (Function.update_eq_self h s'.ends).symm (fun _ => id)
    exact stream.quiet rfl rfl rfl (Nat.le_refl _) stream.registered stream.opened
      fun s up registered => ⟨up, registered⟩
  | @wait s₁ _ _ h _ _ found _ _ =>
    obtain ⟨inv, entry, _⟩ := inv.connect found
    have acts (h' : Handle) : of h' (past ++ [.waiting h]) = of h' past := of_waiting h' h past
    constructor
    case listed => exact inv.listed
    case unmade =>
      intro h' later
      rw [acts]
      exact inv.unmade h' later
    case stream =>
      intro h' made
      rw [acts]
      exact inv.stream h' made
    case reachable =>
      rintro h' (queue | ⟨x, waiting, rfl⟩)
      · exact inv.reachable h' (.inl queue)
      · rcases List.mem_cons.mp waiting with rfl | waiting
        · exact ⟨_, entry⟩
        · exact inv.reachable _ (.inr ⟨x, waiting, rfl⟩)
  | @finish rest origin h data _ _ serial waiting done =>
    have top : s.Connecting h := ⟨_, by rw [waiting]; exact List.mem_cons_self, rfl⟩
    have entry := inv.reachable h (.inr top)
    refine inv.act entry (of_called · h past origin _)
      (inv.takes entry (outcome_step done) keeps) rfl rfl rfl ?_
    rintro h' ⟨x, later, rfl⟩
    exact ⟨x, by rw [waiting]; exact List.mem_cons_of_mem _ later, rfl⟩
  | add serviceId =>
    have inv : Invariant past (s.addConnection serviceId) := by
      apply inv.insert (.accepted serviceId 0)
      intro h entry
      obtain ⟨queue, -, connecting⟩ := keeps h entry
      exact ⟨List.isEmpty_iff.mp queue, connecting⟩
    have acts (h : Handle) : of h (past ++ [.added s.count serviceId]) = of h past :=
      of_added h s.count past serviceId
    constructor
    case listed => exact inv.listed
    case unmade =>
      intro h later
      rw [acts]
      exact inv.unmade h later
    case stream =>
      intro h made
      rw [acts]
      exact inv.stream h made
    case reachable => exact inv.reachable
  | @event _ h l _ entry step calls =>
    have unbroken : Outgoing.Unbroken (s.ends h) l := by
      cases l <;> trivial
    exact inv.act ⟨_, entry⟩ (of_event · h past _ l) (inv.takes ⟨_, entry⟩ step unbroken)
      rfl rfl rfl (fun _ => id)

theorem invariant_start : Invariant [] ({} : Connections β) := by
  refine ⟨by simp, fun _ _ => ⟨rfl, rfl⟩, ?_, ?_⟩
  · intro h made
    exact absurd made (Nat.not_lt_zero h)
  · rintro h (queue | ⟨x, waiting, _⟩)
    · exact absurd rfl queue
    · exact absurd waiting List.not_mem_nil

end Loss

/-- Every run in which no connection is replaced with frames left in it or while it handles one:
what `Send` has accepted is written in whole on one socket or in the queue of a connection in
`_connections`. -/
theorem no_frame_lost {hist : List (Label β)} {s : Connections β}
    (run : Guarded Step Keeps {} hist s) (h : Handle) (i : Nat)
    (accepted : i < (sentFrames (of h hist)).length) :
    Outgoing.Written (of h hist) i ∨ Queued hist s h i := by
  have inv : Loss.Invariant hist s := run.history Loss.invariant_step Loss.invariant_start
  have made : h < s.count := by
    by_contra unmade
    simp [(inv.unmade h (Nat.le_of_not_lt unmade)).1, sentFrames] at accepted
  have stream := inv.stream h made
  by_cases left : i < Outgoing.gone (of h hist) (s.ends h)
  · exact .inl (stream.complete i left)
  · refine .inr ⟨inv.reachable h (.inl ?_), Nat.le_of_not_lt left, stream.queue_eq⟩
    intro empty
    simp [Outgoing.gone, empty, accepted] at left

/-- An accepted connection takes the place of one that has written all it had. -/
theorem no_frame_lost_replaced :
    ∃ (hist : List (Label UInt8)) (s : Connections UInt8), Reaches Step {} hist s ∧
      s.count = 2 ∧ (Outgoing.Written (of 0 hist) 0 ∨ Queued hist s 0 0) := by
  have run := played (Keeps (β := UInt8)) {}
    [.send none ⟨['a'], 1⟩ [0, 0, 0, 0] true, .event ⟨['a'], 1⟩ (.output 4), .add ⟨['a'], 1⟩]
  exact ⟨_, _, run.reaches, by decide +kernel, no_frame_lost run 0 0 (by decide +kernel)⟩

/-- A session connects and sends; the service, which connects at the same time, is accepted. -/
theorem queue_lost_on_accept :
    ∃ (hist : List (Label UInt8)) (s : Connections UInt8), Reaches Step {} hist s ∧
      sends (of 0 hist) = [(0, [0, 0, 0, 0])] ∧
      ¬ Outgoing.Written (of 0 hist) 0 ∧ ¬ Queued hist s 0 0 := by
  obtain ⟨hist, s, run, sent, frames, written, table⟩ : ∃ (hist : List (Label UInt8))
      (s : Connections UInt8), Reaches Step {} hist s ∧
      sends (of 0 hist) = [(0, [0, 0, 0, 0])] ∧ sentFrames (of 0 hist) = [[0, 0, 0, 0]] ∧
      (of 0 hist).filterMap Label.wroteOn = [] ∧
      s.table = Function.update (Function.update (fun _ => none) ⟨['a'], 1⟩ (some 0))
        ⟨['a'], 1⟩ (some 1) :=
    ⟨_, _, (played (fun _ _ _ => True) {} [.send none ⟨['a'], 1⟩ [0, 0, 0, 0] true,
      .add ⟨['a'], 1⟩]).reaches, by decide +kernel, by decide +kernel,
      by decide +kernel, rfl⟩
  refine ⟨hist, s, run, sent, ?_, ?_⟩
  · rintro ⟨socket, k, le, whole⟩
    obtain rfl := Nat.le_zero.mp le
    simp [frames, writtenOn, written] at whole
  · rintro ⟨⟨serviceId, entry⟩, -⟩
    rw [table, Function.update_idem, Function.update_apply] at entry
    split at entry <;> simp at entry

end Connections
end PBus
