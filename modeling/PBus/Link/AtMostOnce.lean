import PBus.Connection.Sockets
import PBus.Link.Reconnect

/-! Frames over a connection that is hung up and connected again. What is lost is not sent
again, and nothing is handed over twice. -/
namespace PBus
open Transition Connection Streams

namespace Hub

/-- A peer lives as long as its socket and gets no input while it handles a frame. -/
def Sequential : Label UInt8 → Prop
  | .hungUp => False
  | .read _ nested _ _ => nested = false
  | _ => True

/-- The client is given whole frames and opens no socket with a frame partly written. -/
def Careful (past : List (Party × Label UInt8)) (k : Hub) : Party × Label UInt8 → Prop
  | (.client, l) => Outgoing.Clean (of .client past) k.client l
  | (.peer _, l) => Sequential l

instance (past : List (Party × Label UInt8)) (k : Hub) (l : Party × Label UInt8) :
    Decidable (Careful past k l) :=
  match l with
  | (.client, _) => inferInstanceAs (Decidable (_ ∧ _))
  | (.peer _, .hungUp) => inferInstanceAs (Decidable False)
  | (.peer _, .read _ nested _ _) => inferInstanceAs (Decidable (nested = false))
  | (.peer _, .sent _ _) | (.peer _, .refused _) | (.peer _, .wrote _ _)
  | (.peer _, .handled _) => inferInstanceAs (Decidable True)

def arrived (hist : List (Party × Label UInt8)) (s : SocketId) : List (List UInt8) :=
  (handed (of (.peer s) hist)).map Prod.snd

/-- The peers decode what the client has written. -/
theorem arrived_written {start k : Hub} {hist : List (Party × Label UInt8)}
    (started : Started start) (run : Guarded Step Careful start hist k) (s : SocketId) :
    (∀ u ∈ arrived hist s, Delimited.Whole (frames UInt8) u) ∧
      (arrived hist s).flatten <+: on s (writes (of .client hist)) := by
  obtain ⟨up, -⟩ := wires started run.reaches s
  obtain ⟨_, peers, _, _⟩ := started
  have peer := peer_run (C := fun _ _ l => l.nestedInput = false) s ?_ run
  swap
  · intro past k l met
    cases l <;> simp_all [Careful, Sequential, Label.nestedInput]
  cases Reentrancy.progress_run (peers s) peer.reaches with
  | sequential us _ decoding inOrder =>
    have same : arrived hist s = us := by rw [arrived, inOrder, numbered, numberedFrom_frames]
    rw [same]
    refine ⟨decoding.whole, ?_⟩
    have taken : us.flatten <+: bytesRead (of (.peer s) hist) := by
      obtain ⟨rest, parsed⟩ := decoding.parse_eq.1
      obtain ⟨joined, -, -⟩ := Delimited.parse_sound (frames UInt8) (bytesRead (of (.peer s) hist))
      rw [← joined, ← parsed, List.flatten_append, List.append_assoc]
      exact List.prefix_append _ _
    refine taken.trans ⟨k.up s, ?_⟩
    rw [← up]
    rfl
  | «repeated» before after first second u nested =>
    obtain ⟨l, member, nested⟩ := nested
    rw [peer.labels l member] at nested
    contradiction

theorem take_le {us : List (List UInt8)} (whole : ∀ u ∈ us, Delimited.Whole (frames UInt8) u)
    (fits : j ≤ us.length) (less : (us.take j).flatten <+: (us.take k).flatten) : j ≤ k := by
  by_contra more
  have longer := less.length_le
  have split : us.take j = us.take k ++ (us.drop k).take (j - k) := by
    rw [← List.take_add, Nat.add_sub_cancel' (by omega)]
  rw [split, List.flatten_append, List.length_append] at longer
  obtain ⟨u, rest, cut⟩ : ∃ u rest, (us.drop k).take (j - k) = u :: rest := by
    apply List.exists_cons_of_ne_nil
    intro empty
    have := congrArg List.length empty
    simp only [List.length_take, List.length_drop, List.length_nil] at this
    omega
  have member : u ∈ us := List.mem_of_mem_drop (List.mem_of_mem_take (cut ▸ List.mem_cons_self))
  have some' := List.length_pos_of_ne_nil (whole u member).ne_nil
  rw [cut, List.flatten_cons, List.length_append] at longer
  omega

/-- Where a socket starts with the frame number `k`, what arrives on it are the frames from there
on, and the sockets behind it start behind them. -/
theorem arrived_between {start k : Hub} {hist : List (Party × Label UInt8)}
    (started : Started start) (run : Guarded Step Careful start hist k) {s : SocketId}
    (starts : StartsAt s n (of .client hist)) :
    arrived hist s <+: (sentFrames (of .client hist)).drop n ∧
      ∀ t m, s < t → StartsAt t m (of .client hist) → n + (arrived hist s).length ≤ m := by
  have client := client_run (C := Outgoing.Clean) (fun met => met) run
  have flow := Outflow.run (by cases started; assumption) client.reaches
  have placed := placed_run (by cases started; assumption) client
  have whole := Outgoing.whole_frames (fun met => met.1) client
  obtain ⟨units, stream⟩ := arrived_written started run s
  obtain ⟨few, first⟩ := starts
  have succ := below_succ placed.inOrder s
  -- the stream of the socket goes on with the frames from `n`
  have behind : on s (writes (of .client hist)) <+:
      ((sentFrames (of .client hist)).drop n).flatten := by
    have initial := below_initial placed.inOrder (s + 1)
    rw [succ, first] at initial
    have all : ((sentFrames (of .client hist)).take n).flatten ++
        on s (writes (of .client hist)) <+: ((sentFrames (of .client hist)).take n).flatten ++
          ((sentFrames (of .client hist)).drop n).flatten := by
      rw [← List.flatten_append, List.take_append_drop, ← flow.bytes]
      exact initial.trans (List.prefix_append _ _)
    exact (List.prefix_append_right_inj _).mp all
  have arrives : arrived hist s <+: (sentFrames (of .client hist)).drop n := by
    have wholeBehind : ∀ u ∈ (sentFrames (of .client hist)).drop n,
        Delimited.Whole (frames UInt8) u := fun u member => whole u (List.mem_of_mem_drop member)
    obtain ⟨rest, same⟩ := stream.trans behind
    have more := Delimited.parse_initial (frames UInt8) (arrived hist s).flatten rest
    rwa [same, Delimited.parse_flatten units, Delimited.parse_flatten wholeBehind] at more
  refine ⟨arrives, fun t m later starts => ?_⟩
  obtain ⟨-, first'⟩ := starts
  have bound := arrives.length_le
  rw [List.length_drop] at bound
  apply take_le whole (by omega)
  have own : (sentFrames (of .client hist)).take (n + (arrived hist s).length) =
      (sentFrames (of .client hist)).take n ++ arrived hist s := by
    rw [List.take_add, ← List.prefix_iff_eq_take.mp arrives]
  rw [own, List.flatten_append, ← first, ← first']
  refine List.IsPrefix.trans ?_ (below_le placed.inOrder t later)
  rw [succ]
  exact (List.prefix_append_right_inj _).mpr stream

theorem arrived_starts {start k : Hub} {hist : List (Party × Label UInt8)}
    (started : Started start) (run : Guarded Step Careful start hist k) {s : SocketId}
    (some' : arrived hist s ≠ []) : ∃ n, StartsAt s n (of .client hist) := by
  have client := client_run (C := Outgoing.Clean) (fun met => met) run
  have placed := placed_run (by cases started; assumption) client
  obtain ⟨units, stream⟩ := arrived_written started run s
  obtain ⟨u, us, cut⟩ := List.exists_cons_of_ne_nil some'
  have given : on s (writes (of .client hist)) ≠ [] := by
    intro none
    rw [none, cut, List.flatten_cons] at stream
    have empty := (List.append_eq_nil_iff.mp (List.prefix_nil.mp stream)).1
    exact (units u (cut ▸ List.mem_cons_self)).ne_nil empty
  obtain ⟨w, member, rfl⟩ := mem_of_on given
  exact placed.written w member

end Hub
open Hub

/-- Every run in which no socket starts with the rest of a frame: the frames that are handed
over, socket by socket, are frames the client sent, each at most once and in their order. -/
theorem at_most_once {start k : Hub} {hist : List (Hub.Party × Label UInt8)}
    (started : Hub.Started start) (run : Guarded Hub.Step Hub.Careful start hist k) (n : Nat) :
    ((List.range n).flatMap (Hub.arrived hist)).Sublist (sentFrames (Hub.of .client hist)) := by
  -- up to a socket, what has arrived are frames before those it starts with
  have upTo : ∃ b, ((List.range n).flatMap (Hub.arrived hist)).Sublist
      ((sentFrames (Hub.of .client hist)).take b) ∧
      ∀ t m, n ≤ t → StartsAt t m (Hub.of .client hist) → b ≤ m := by
    induction n with
    | zero => exact ⟨0, by simp, fun t m _ _ => Nat.zero_le m⟩
    | succ s ih =>
      obtain ⟨b, before, later⟩ := ih
      rw [List.range_succ, List.flatMap_append, List.flatMap_singleton]
      by_cases some' : Hub.arrived hist s = []
      · rw [some', List.append_nil]
        exact ⟨b, before, fun t m past => later t m (Nat.le_of_succ_le past)⟩
      · obtain ⟨m, starts⟩ := arrived_starts started run some'
        obtain ⟨arrives, behind⟩ := arrived_between started run starts
        refine ⟨m + (Hub.arrived hist s).length, ?_, fun t m' past => behind t m' past⟩
        rw [List.take_add, ← List.prefix_iff_eq_take.mp arrives]
        refine List.Sublist.append ?_ (List.Sublist.refl _)
        exact before.trans (List.take_sublist_take_left (later s m (Nat.le_refl s) starts))
  obtain ⟨b, before, -⟩ := upTo
  exact before.trans (List.take_sublist _ _)

/-- Of three frames the second is lost with the first socket. -/
theorem at_most_once_lost :
    ∃ (hist : List (Hub.Party × Label UInt8)) (k : Hub),
      Guarded Hub.Step Hub.Careful .fresh hist k ∧
      sentFrames (Hub.of .client hist) =
        [[0, 0, 0, 0], [1, 0, 0, 0, 5], [2, 0, 0, 0, 6, 7]] ∧
      (List.range 3).flatMap (Hub.arrived hist) = [[0, 0, 0, 0], [2, 0, 0, 0, 6, 7]] ∧
      ((List.range 3).flatMap (Hub.arrived hist)).Sublist (sentFrames (Hub.of .client hist)) := by
  have run := Hub.played Hub.Careful .fresh
    [(.client, .send [0, 0, 0, 0] true), (.client, .send [1, 0, 0, 0, 5] true),
      (.client, .output 9), (.client, .output 9), (.peer 0, .input [0, 0, 0, 0]),
      (.peer 0, .returned), (.client, .hangup), (.client, .send [2, 0, 0, 0, 6, 7] true),
      (.client, .output 9), (.peer 2, .input [2, 0, 0, 0, 6, 7]), (.peer 2, .returned)]
  exact ⟨_, _, run, by decide +kernel, by decide +kernel,
    at_most_once (.joined (.outgoing _) (fun _ => .accepted _ 0) rfl rfl) run 3⟩

end PBus
