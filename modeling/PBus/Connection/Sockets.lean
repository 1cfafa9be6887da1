import PBus.Connection.Outgoing
import PBus.Foundation.Streams

/-! What a connection writes on all its sockets: each goes on with the frames where the one
before has left the queue. -/
namespace PBus.Connection
open Transition Streams
variable {β : Type} [Cell β]

def writes (hist : List (Label β)) : List (SocketId × List β) := hist.filterMap Label.wroteOn

/-- What is written on earlier sockets are the first `k` frames. -/
def StartsAt (socket : SocketId) (k : Nat) (hist : List (Label β)) : Prop :=
  k ≤ (sentFrames hist).length ∧
    below socket (writes hist) = ((sentFrames hist).take k).flatten

/-- The sockets are written on one after the other, and start with frames. -/
structure Placed (hist : List (Label β)) (e : Endpoint β) : Prop where
  inOrder : InOrder (writes hist)
  opened : ∀ w ∈ writes hist, w.1 < e.nextSocket
  current : ∀ s, e.conn.socket = some s → s < e.nextSocket ∧ ∀ w ∈ writes hist, w.1 ≤ s
  written : ∀ w ∈ writes hist, ∃ k, StartsAt w.1 k hist
  registered : ∀ s, e.conn.socket = some s → e.conn.interest.isSome → ∃ k, StartsAt s k hist

theorem writes_append (past : List (Label β)) (l : Label β) :
    writes (past ++ [l]) = writes past ++ l.wroteOn.toList := by
  simp only [writes, List.filterMap_append, List.filterMap_cons, List.filterMap_nil]
  cases l.wroteOn <;> rfl

theorem StartsAt.sent {past : List (Label β)} {l : Label β} (starts : StartsAt socket k past)
    (quiet : l.wroteOn = none) : StartsAt socket k (past ++ [l]) := by
  obtain ⟨few, first⟩ := starts
  rw [StartsAt, writes_append, quiet, Option.toList_none, List.append_nil, sentFrames_append]
  refine ⟨by rw [List.length_append]; omega, ?_⟩
  rw [List.take_append_of_le_length few, first]

theorem StartsAt.wrote {past : List (Label β)} {bytes : List β} (starts : StartsAt socket k past)
    (before : socket ≤ s) : StartsAt socket k (past ++ [.wrote s bytes]) := by
  obtain ⟨few, first⟩ := starts
  have unsent : sentFrames (past ++ [.wrote s bytes]) = sentFrames past := by
    simp [sentFrames, Label.sentData]
  rw [StartsAt, unsent, writes_append, below_append, first]
  exact ⟨few, by simp [below, Label.wroteOn, Nat.not_lt.mpr before]⟩

theorem starts_new {B : Nat → Prop} {past : List (Label β)} {e : Endpoint β}
    (inv : Outgoing.Invariant B past e) (flow : Outflow past e) (placed : Placed past e)
    (boundary : e.conn.atBoundary = true) :
    StartsAt e.nextSocket (Outgoing.gone past e) past := by
  refine ⟨Nat.sub_le _ _, ?_⟩
  have bytes := flow.bytes
  rw [LocalBusConnection.queued, LocalBusConnection.queued_unbegun
    (Outgoing.unbegun inv.waiting boundary), inv.queue_eq] at bytes
  rw [below_all placed.opened]
  have all := congrArg List.flatten (List.take_append_drop (Outgoing.gone past e)
    (sentFrames past))
  rw [List.flatten_append] at all
  exact List.append_cancel_right (bytes.trans all.symm)

theorem Placed.quiet {past : List (Label β)} {e e' : Endpoint β} {l : Label β}
    (placed : Placed past e) (quiet : l.wroteOn = none) (more : e.nextSocket ≤ e'.nextSocket)
    (current : ∀ s, e'.conn.socket = some s →
      s < e'.nextSocket ∧ ∀ w ∈ writes past, w.1 ≤ s)
    (registered : ∀ s, e'.conn.socket = some s → e'.conn.interest.isSome →
      ∃ k, StartsAt s k past) : Placed (past ++ [l]) e' := by
  have same : writes (past ++ [l]) = writes past := by simp [writes_append, quiet]
  constructor
  case inOrder => exact same ▸ placed.inOrder
  case opened =>
    intro w member
    exact Nat.lt_of_lt_of_le (placed.opened w (same ▸ member)) more
  case current => exact same ▸ current
  case written =>
    intro w member
    obtain ⟨k, starts⟩ := placed.written w (same ▸ member)
    exact ⟨k, starts.sent quiet⟩
  case registered =>
    intro s up interest
    obtain ⟨k, starts⟩ := registered s up interest
    exact ⟨k, starts.sent quiet⟩

theorem Placed.step {B : Nat → Prop} {past : List (Label β)} {e e' : Endpoint β} {l : Label β}
    (inv : Outgoing.Invariant B past e) (flow : Outflow past e) (placed : Placed past e)
    (step : Endpoint.Step e l e') (unbroken : Outgoing.Unbroken e l) :
    Placed (past ++ [l]) e' := by
  -- the socket of a `Send` is the current one or a new one
  have opened {socket : SocketId} (opens : e.Opens socket) :
      socket < e.nextSocket + 1 ∧ ∀ w ∈ writes past, w.1 ≤ socket := by
    rcases opens with up | ⟨-, rfl⟩
    · obtain ⟨bound, last⟩ := placed.current socket up
      exact ⟨Nat.lt_succ_of_lt bound, last⟩
    · exact ⟨Nat.lt_succ_self _, fun w member => Nat.le_of_lt (placed.opened w member)⟩
  cases step.writes with
  | sent opens registered =>
    refine placed.quiet rfl (Nat.le_succ _) ?_ ?_
    · rintro s ⟨⟩
      exact opened opens
    · rintro s ⟨⟩ -
      rcases opens with up | ⟨down, rfl⟩
      · exact placed.registered _ up (registered (by simp [up]))
      · exact ⟨_, starts_new inv flow placed (unbroken down)⟩
  | refused opens =>
    refine placed.quiet rfl (Nat.le_succ _) ?_ ?_
    · rintro s ⟨⟩
      exact opened opens
    · rintro s ⟨⟩ registered
      rcases opens with up | ⟨down, rfl⟩
      · exact placed.registered _ up registered
      · -- a connection that failed is not in the poll
        have none := inv.registered down
        simp [none] at registered
  | @wrote socket n up registered =>
    obtain ⟨bound, last⟩ := placed.current socket up
    have writes' : writes (past ++ [.wrote socket (e.conn.output n).1]) =
        writes past ++ [(socket, (e.conn.output n).1)] := by simp [writes_append, Label.wroteOn]
    constructor
    case inOrder =>
      rw [writes', InOrder, List.pairwise_append]
      refine ⟨placed.inOrder, List.pairwise_singleton _ _, fun v member w new => ?_⟩
      obtain rfl := List.mem_singleton.mp new
      exact last v member
    case opened =>
      rw [writes']
      intro w member
      rcases List.mem_append.mp member with old | new
      · exact placed.opened w old
      · obtain rfl := List.mem_singleton.mp new
        exact bound
    case current =>
      intro s same
      obtain rfl : socket = s := by
        rw [LocalBusConnection.output_eq] at same
        exact Option.some.inj (up.symm.trans same)
      refine ⟨bound, ?_⟩
      rw [writes']
      intro w member
      rcases List.mem_append.mp member with old | new
      · exact last w old
      · obtain rfl := List.mem_singleton.mp new
        exact Nat.le_refl _
    case written =>
      rw [writes']
      intro w member
      rcases List.mem_append.mp member with old | new
      · obtain ⟨k, starts⟩ := placed.written w old
        exact ⟨k, starts.wrote (last w old)⟩
      · obtain rfl := List.mem_singleton.mp new
        obtain ⟨k, starts⟩ := placed.registered socket up registered
        exact ⟨k, starts.wrote (Nat.le_refl _)⟩
    case registered =>
      intro s same _
      obtain rfl : socket = s := by
        rw [LocalBusConnection.output_eq] at same
        exact Option.some.inj (up.symm.trans same)
      obtain ⟨k, starts⟩ := placed.registered socket up registered
      exact ⟨k, starts.wrote (Nat.le_refl _)⟩
  | hungUp =>
    exact placed.quiet rfl (Nat.le_refl _) (fun s up => by contradiction)
      (fun s up => by contradiction)
  | reading task serial stack unsent unwritten =>
    exact placed.quiet unwritten (Nat.le_refl _) placed.current placed.registered

theorem placed_start {start : Endpoint β} (started : Endpoint.Started start) :
    Placed [] start := by
  cases started with
  | outgoing =>
    exact ⟨.nil, by simp [writes], fun s up => by contradiction, by simp [writes],
      fun s up => by contradiction⟩
  | accepted serviceId socket =>
    refine ⟨.nil, by simp [writes], ?_, by simp [writes], fun s _ _ => ?_⟩
    · rintro s ⟨⟩
      exact ⟨Nat.lt_succ_self _, by simp [writes]⟩
    · exact ⟨0, Nat.zero_le _, rfl⟩

/-- Every run in which no new socket finds a frame partly written: each socket goes on with the
frames that the sockets before it have left. -/
theorem placed_run {start e : Endpoint β} {hist : List (Label β)}
    (started : Endpoint.Started start) (run : Guarded Endpoint.Step Outgoing.Clean start hist e) :
    Placed hist e := by
  have all : Outgoing.Invariant (fun _ => True) hist e ∧ Outflow hist e ∧ Placed hist e := by
    refine run.history (P := fun hist e => Outgoing.Invariant (fun _ => True) hist e ∧
      Outflow hist e ∧ Placed hist e) ?_
      ⟨Outgoing.invariant_start started trivial, Outflow.run started (.refl _),
        placed_start started⟩
    rintro past e l e' ⟨inv, flow, placed⟩ step clean
    exact ⟨Outgoing.invariant_step inv step clean.2 fun _ _ => trivial, flow.step step,
      placed.step inv flow step clean.2⟩
  exact all.2.2

end PBus.Connection
