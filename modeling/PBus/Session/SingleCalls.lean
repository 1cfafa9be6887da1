import PBus.Link.Turns
import PBus.Session.Quiescence

/-! Sessions that make one request at a time: while it is being handled nothing is under way. -/
namespace PBus
open Transition Connection Session

namespace Rpc
variable {tk : Toolkit}

/-- Of the frames sent at most one has not been handed over, or not been answered. -/
def Alone (hist : List (Label tk)) (k : Rpc tk) : Prop :=
  (sent .connecting hist).length + (sent .accepting hist).length + (inHand k .connecting).length +
    (inHand k .accepting).length ≤
      (received .connecting hist).length + (received .accepting hist).length + 1

theorem alone_iff (hist : List (Label tk)) (k : Rpc tk) (side : Side) : Alone hist k ↔
    (sent side hist).length + (sent side.other hist).length + (inHand k side).length +
      (inHand k side.other).length ≤
        (received side hist).length + (received side.other hist).length + 1 := by
  unfold Alone
  cases side
  · rfl
  · simp only [Side.other]
    omega

theorem received_le {start k : Rpc tk} {hist : List (Label tk)} (started : Started start)
    (run : Guarded Step Peaceful start hist k) (side : Side) :
    (received side.other hist).length ≤ (sent side hist).length := by
  have calm := link_run run
  obtain ⟨fresh, joined⟩ := started
  rw [sent_eq]
  exact Link.handed_le joined calm.reaches calm.labels side

theorem Alone.all {start k : Rpc tk} {hist : List (Label tk)} (alone : Alone hist k)
    (started : Started start) (run : Guarded Step Peaceful start hist k) {side : Side}
    (busy : (k.current side).isSome) (s : Side) :
    (sent s hist).length ≤ (received s.other hist).length := by
  obtain ⟨request, busy⟩ := Option.isSome_iff_exists.mp busy
  have hand : (inHand k side).length = 1 := by simp [inHand, busy]
  have mine := received_le started run s
  have theirs := received_le started run s.other
  have bound := (alone_iff hist k s).mp alone
  rw [Side.other_other] at theirs
  rcases Side.eq_or_other side s with rfl | rfl <;> omega

theorem all_received {start k : Rpc tk} {hist : List (Label tk)} (started : Started start)
    (run : Guarded Step Peaceful start hist k) {side : Side}
    (all : (sent side hist).length ≤ (received side.other hist).length) :
    received side.other hist = numbered (sent side hist) ∧ k.link.wire side = [] := by
  have calm := link_run run
  obtain ⟨fresh, joined⟩ := started
  rw [sent_eq] at all ⊢
  refine ⟨?_, Link.handed_all joined calm.reaches calm.labels all⟩
  obtain ⟨us, inOrder, first, -⟩ := Link.handed_sent joined calm.reaches calm.labels side
  have long := all
  rw [received, inOrder, Link.numbered_length] at long
  rw [received, inOrder, first.eq_of_length_le long]

theorem Alone.next {start k k' : Rpc tk} {past : List (Label tk)} {l : Label tk}
    (alone : Alone past k) (started : Started start) (run : Guarded Step Peaceful start past k)
    (step : Step k l k') (single : (∃ side, l.requested side ≠ []) → ∀ side, Settled side k) :
    Alone (past ++ [l]) k' := by
  have sends {side : Side} {serial : UInt32} {payload : List UInt8}
      (link : l.link = some (side, .sent serial (frame payload))) (s : Side) :
      (sent s (past ++ [l])).length = (sent s past).length + if side = s then 1 else 0 := by
    rw [sent_append, List.length_append]
    by_cases own : side = s
    · subst own
      rw [Label.sent_link side link, if_pos rfl, List.length_singleton]
    · simp [Label.sent, link, Link.of, sentFrames, own]
  have requests {side : Side} {serial : UInt32} {payload : List UInt8}
      (link : l.link = some (side, .sent serial (frame payload)))
      (asks : l.requested side ≠ []) (same : k'.current = k.current) :
      Alone (past ++ [l]) k' := by
    have settled := single ⟨side, asks⟩
    have quiet (s : Side) : received s (past ++ [l]) = received s past :=
      received_quiet s past fun x same _ => by rw [link] at same; cases same; rfl
    have none (s : Side) : (inHand k' s).length = 0 := by
      have idle := (settled s.other).2
      rw [Side.other_other] at idle
      simp [inHand, same, idle]
    have all (s : Side) : (received s.other past).length = (sent s past).length := by
      rw [settled_received started run (settled s), Link.numbered_length]
    have mine := all side
    have theirs := all side.other
    rw [Side.other_other] at theirs
    rw [alone_iff _ _ side, sends link, sends link, quiet, quiet, none, none, if_pos rfl,
      if_neg (Side.ne_other side)]
    omega
  have silent {side : Side} {act : Connection.Label UInt8} (same : l = .moved side act)
      (silent : act.sentData = []) (s : Side) : sent s (past ++ [l]) = sent s past := by
    rw [same, sent_append, moved_sent s side silent, List.append_nil]
  cases step with
  | invoke side => exact requests rfl (by simp [Label.requested]) rfl
  | release side => exact requests rfl (by simp [Label.requested]) rfl
  | @event link side act moved none quiet =>
    have unread (s : Side) : received s (past ++ [.moved side act]) = received s past :=
      received_quiet s past fun x same _ => by cases same; exact quiet
    unfold Alone at alone ⊢
    rw [silent rfl none, silent rfl none, unread, unread]
    exact alone
  | @dispatch link side act d moved gives idle =>
    have other : received side.other (past ++ [.moved side act]) = received side.other past :=
      received_quiet _ past fun x same here => by
        cases same
        exact absurd here (Side.ne_other side)
    have own : (inHand (onIncomingData { k with link } side d) side).length ≤ 1 := by
      rw [inHand_dispatch (k := { k with link }) idle, asking]
      split <;> simp
    have apart : inHand (onIncomingData { k with link } side d) side.other =
        inHand k side.other := inHand_other (k := { k with link }) (Side.other_ne side) d
    have none : (inHand k side).length = 0 := by simp [inHand, idle]
    rw [alone_iff _ _ side] at alone ⊢
    rw [silent rfl (dispatched_silent gives), silent rfl (dispatched_silent gives), other,
      received_dispatch side past rfl gives, apart, List.length_append, List.length_singleton]
    omega
  | @answer link side asked serial payload result outcome busy =>
    have quiet (s : Side) : received s (past ++ [.answered side asked payload outcome serial]) =
        received s past := received_quiet s past fun x same _ => by cases same; rfl
    have hand : (inHand k side).length = 1 := by simp [inHand, busy]
    rw [alone_iff _ _ side] at alone ⊢
    rw [sends rfl, sends rfl, quiet, quiet, if_pos rfl, if_neg (Side.ne_other side)]
    simp only [inHand, Function.update_self, Function.update_of_ne (Side.other_ne side),
      Option.toList_none, List.map_nil, List.length_nil] at alone hand ⊢
    omega
  | @lost link side data busy =>
    have unread (s : Side) : received s (past ++ [.moved side (.refused data)]) =
        received s past := received_quiet s past fun x same _ => by cases same; rfl
    rw [alone_iff _ _ side] at alone ⊢
    rw [silent rfl rfl, silent rfl rfl, unread, unread]
    simp only [inHand, Function.update_self, Function.update_of_ne (Side.other_ne side),
      Option.toList_none, List.map_nil, List.length_nil] at alone ⊢
    omega
  | @wait side serial parser ty =>
    have unread (s : Side) : received s (past ++ [.waited side serial (parser.wait ty)]) =
        received s past := received_quiet s past fun x same _ => by cases same
    have unsent (s : Side) : sent s (past ++ [.waited side serial (parser.wait ty)]) =
        sent s past := by
      rw [sent_append]
      exact List.append_nil _
    unfold Alone at alone ⊢
    rwa [unsent, unsent, unread, unread]

theorem loop_count {e e' : Endpoint UInt8} {bytes : List UInt8} {d : Option (Dispatch UInt8)}
    (looped : e.loop socket bytes = (e', d)) :
    e'.stack.length = e.stack.length + d.toList.length := by
  unfold Endpoint.loop at looped
  split at looped <;> obtain ⟨rfl, rfl⟩ := Prod.mk.inj looped <;> rfl

/-- The handlers that a step lets return. -/
def ended : Connection.Label UInt8 → Nat
  | .handled _ => 1
  | _ => 0

theorem stack_count {e e' : Endpoint UInt8} {l : Connection.Label UInt8}
    (step : Endpoint.Step e l e') :
    e'.stack.length + ended l = e.stack.length + l.dispatched.length := by
  cases l with
  | sent | refused | wrote | hungUp =>
    rw [undispatched_busy step rfl (by simp)]
    rfl
  | read socket nested bytes dispatch =>
    cases step with
    | read _ _ _ _ looped => exact loop_count looped
  | handled dispatch =>
    cases step with
    | handled done =>
      unfold Endpoint.handled at done
      split at done
      · contradiction
      · rename_i stack
        rw [stack, ended, loop_count (Option.some.inj done), List.length_cons]
        exact Nat.add_right_comm _ _ _

theorem stack_single {start k : Rpc tk} {hist : List (Label tk)} (started : Started start)
    (run : Guarded Step Peaceful start hist k) (side : Side) :
    (k.link.ends side).stack.length ≤ 1 := by
  have calm := link_run run
  obtain ⟨fresh, joined⟩ := started
  exact Link.stack_single joined calm.reaches calm.labels side

end Rpc
end PBus
