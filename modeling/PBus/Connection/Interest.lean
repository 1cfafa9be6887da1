import PBus.Connection.Connecting

/-! What the poll is asked for: `EventOutput` as long as there is something to write, and not
longer, whatever the socket takes and whatever throws on the way. -/
namespace PBus.Connection
open Transition Connecting
variable {β : Type} [Cell β]

namespace Interest

/-- A connection waits for `EventOutput` exactly as long as its queue is not empty, and no task
of the queue is finished. -/
structure FollowsQueue (e : Endpoint β) : Prop where
  interest : e.conn.interest.isSome → (e.conn.interest = some true ↔ e.conn.writeQueue ≠ [])
  unfinished : ∀ t ∈ e.conn.writeQueue, t.finished = false

/-- A `Send` is given a frame with at least its header. -/
def Headed : Connecting.Label β → Prop
  | .own (.sent _ data) | .own (.refused data) | .connected data _ _ => 4 ≤ data.length
  | _ => True

theorem followsQueue_started {start : Endpoint β} (started : Endpoint.Started start) :
    FollowsQueue start := by
  cases started with
  | outgoing serviceId => exact ⟨fun registered => by contradiction, fun t ht => by contradiction⟩
  | accepted serviceId socket =>
    exact ⟨fun _ => iff_of_false (by simp [LocalBusConnection.accept]) (fun full => full rfl),
      fun t ht => by contradiction⟩

omit [Cell β] in
theorem unfinished_append {queue : List (WriteTask β)} {data : List β} (headed : 4 ≤ data.length)
    (unfinished : ∀ t ∈ queue, t.finished = false) :
    ∀ t ∈ queue ++ [⟨data, 0⟩], t.finished = false := by
  intro t ht
  rcases List.mem_append.mp ht with old | new
  · exact unfinished t old
  · obtain rfl := List.mem_singleton.mp new
    simp only [WriteTask.finished, decide_eq_false_iff_not]
    omega

omit [Cell β] in
theorem unfinished_writeFront (n : Nat) {queue : List (WriteTask β)}
    (unfinished : ∀ t ∈ queue, t.finished = false) :
    ∀ t ∈ (LocalBusConnection.writeFront n queue).2, t.finished = false := by
  cases queue with
  | nil => exact unfinished
  | cons task rest =>
    have later : ∀ t ∈ rest, t.finished = false := fun t ht =>
      unfinished t (List.mem_cons_of_mem _ ht)
    simp only [LocalBusConnection.writeFront]
    split
    next => exact later
    next open' =>
      intro t ht
      rcases List.mem_cons.mp ht with rfl | ht
      · exact Bool.not_eq_true _ ▸ open'
      · exact later t ht

theorem followsQueue_output {e : Endpoint β} (n : Nat) (before : FollowsQueue e)
    (registered : e.conn.interest.isSome) :
    FollowsQueue { e with conn := (e.conn.output n).2 } := by
  rw [LocalBusConnection.output_eq]
  constructor
  case interest =>
    intro _
    simp only
    split
    next emptied => simp [emptied]
    next left =>
      refine iff_of_true ((before.interest registered).mpr ?_) left
      intro empty
      exact left (by rw [empty]; rfl)
  case unfinished => exact unfinished_writeFront n before.unfinished

theorem followsQueue_step {e e' : Endpoint β} {l : Connecting.Label β} (polled : Polled e)
    (before : FollowsQueue e) (headed : Headed l) (step : Connecting.Step e l e') :
    FollowsQueue e' := by
  cases step.does polled with
  | sent up registered =>
    exact ⟨fun _ => by simp, unfinished_append headed before.unfinished⟩
  | refused up unregistered => exact ⟨before.interest, before.unfinished⟩
  | connected down passes => exact ⟨fun _ => by simp, unfinished_append headed before.unfinished⟩
  | failed down fails => exact ⟨before.interest, before.unfinished⟩
  | wrote n up registered => exact followsQueue_output n before registered
  | threw => exact before
  | hungUp => exact ⟨fun registered => by contradiction, before.unfinished⟩
  | reading => exact ⟨before.interest, before.unfinished⟩

end Interest
open Interest

/-- In every state of a run in which `Send` is given whole headers: a socket in the poll waits
for `EventOutput` exactly if something is queued, and nothing that is queued is finished. -/
theorem interest_follows_queue {start e : Endpoint β} {hist : List (Connecting.Label β)}
    (started : Endpoint.Started start) (run : Reaches Connecting.Step start hist e)
    (headed : ∀ l ∈ hist, Headed l) :
    (e.conn.interest.isSome → (e.conn.interest = some true ↔ e.conn.writeQueue ≠ [])) ∧
    ∀ t ∈ e.conn.writeQueue, t.finished = false := by
  have initial : Polled start ∧ FollowsQueue start :=
    ⟨(polled_started started).1, followsQueue_started started⟩
  have kept := (Guarded.of_labels run headed).history (P := fun _ e => Polled e ∧ FollowsQueue e)
    (fun ⟨polled, follows⟩ step headed =>
      ⟨(step.polled polled).1, followsQueue_step polled follows headed step⟩) initial
  exact ⟨kept.2.interest, kept.2.unfinished⟩

/-- Half a frame is written, the connection is lost, a new one is made by the next `Send`, and
a write on it throws: there is something to write, and the poll is asked for it. -/
theorem interest_after_reconnect :
    let o : Outcomes UInt8 := { connect := .ok () }
    let start : Endpoint UInt8 := { conn := .create ⟨['a'], 1⟩ }
    ∃ e, Reaches Connecting.Step start [.connected [1, 0, 0, 0, 7] o (some 0),
        .own (.wrote 0 [1, 0]), .own .hungUp, .connected [0, 0, 0, 0] o (some 1),
        .threw 1] e ∧
      e.conn.interest = some true ∧ ∀ t ∈ e.conn.writeQueue, t.finished = false := by
  intro o start
  have run : Reaches Connecting.Step start [.connected [1, 0, 0, 0, 7] o (some 0),
      .own (.wrote 0 [1, 0]), .own .hungUp, .connected [0, 0, 0, 0] o (some 1),
      .threw 1] _ :=
    .next (.connected rfl rfl) (.next (.own (.wrote (n := 2) rfl rfl rfl) (fun _ => rfl))
      (.next (.own (.hungUp rfl) (fun calls => absurd calls (by decide)))
        (.next (.connected rfl rfl) (.next (.threw rfl rfl) (.refl _)))))
  have headed : ∀ l ∈ [Connecting.Label.connected [1, 0, 0, 0, 7] o (some 0),
      .own (.wrote 0 [1, 0]), .own .hungUp, .connected [0, 0, 0, 0] o (some 1),
      .threw 1], Headed l := by simp [Headed]
  obtain ⟨follows, unfinished⟩ := interest_follows_queue (.outgoing _) run headed
  exact ⟨_, run, (follows rfl).mpr (by simp), unfinished⟩

end PBus.Connection
