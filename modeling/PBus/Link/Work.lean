import PBus.Link.Delivery
import PBus.Link.Exchange

/-! The work that bytes make on a link until they have been handed over: to be written, read,
and gone through by a loop. Every step of the poll does some of it. -/
namespace PBus
open Transition Connection

/-- The steps that the poll takes by itself, but for writes of which the socket takes nothing. -/
def Connection.Label.Advances {β : Type} [Cell β] : Connection.Label β → Prop
  | .wrote _ bytes => bytes ≠ []
  | .read _ _ _ _ | .handled _ => True
  | .sent _ _ | .refused _ | .hungUp => False

namespace Connection.Endpoint
variable {β : Type} [Cell β]

/-- What is left to do for the bytes a connection holds: to be written, or to be gone through
by the loops that are suspended. -/
def work (e : Endpoint β) : Nat :=
  3 * e.conn.queued.length + (e.stack.flatMap Activation.rest).length + e.stack.length

theorem loop_work {e e' : Endpoint β} {data : List β} {dispatch : Option (Dispatch β)}
    (unfinished : e.conn.readTask.finished = false)
    (looped : e.loop socket data = (e', dispatch)) : e'.work ≤ e.work + data.length := by
  have scanned := e.conn.scan_spec socket data unfinished
  unfold loop at looped
  cases result : e.conn.scan socket data with
  | mk conn outcome =>
    rw [result] at scanned looped
    cases scanned with
    | through task =>
      obtain ⟨rfl, -⟩ := Prod.mk.inj looped
      simp [work, LocalBusConnection.queued]
    | stopped task rest finished pending =>
      obtain ⟨rfl, -⟩ := Prod.mk.inj looped
      have shorter : rest.length < data.length := by
        by_contra long
        -- the frame would have been whole before
        obtain ⟨more, same⟩ : task.pending <+: e.conn.readTask.pending := by
          apply List.prefix_of_prefix_length_le ⟨rest, pending⟩ (List.prefix_append _ data)
          have := congrArg List.length pending
          simp only [List.length_append] at this
          omega
        have open' := e.conn.readTask.pending_unfinished unfinished
        rw [← same] at open'
        exact (task.pending_whole finished).not_unfinished more open'
      simp only [work, LocalBusConnection.queued, List.flatMap_cons, List.length_append,
        List.length_cons]
      omega

theorem handled_work {e e' : Endpoint β} {dispatch : Option (Dispatch β)}
    (done : e.handled = some (e', dispatch)) : e'.work < e.work := by
  unfold handled at done
  cases stack : e.stack with
  | nil => simp [stack] at done
  | cons top below =>
    simp only [stack, Option.some.injEq] at done
    have less := loop_work (e := { e with conn := e.conn.resetRead, stack := below }) rfl done
    have popped : e.work = ({ e with conn := e.conn.resetRead, stack := below } : Endpoint β).work +
        top.rest.length + 1 := by
      simp only [work, LocalBusConnection.queued, LocalBusConnection.resetRead, stack,
        List.flatMap_cons, List.length_append, List.length_cons]
      omega
    omega

theorem output_work (e : Endpoint β) (n : Nat) :
    (e.output n).2.work + 3 * (e.output n).1.length = e.work := by
  have bytes := congrArg List.length (LocalBusConnection.writeFront_bytes n e.conn.writeQueue)
  rw [List.length_append] at bytes
  simp only [output_eq, work, LocalBusConnection.output_eq, LocalBusConnection.queued]
  omega

/-- A step of the poll does some of the work; bytes on their way are counted twice. -/
theorem Step.work_lt {e e' : Endpoint UInt8} {l : Label UInt8} (step : Endpoint.Step e l e')
    (advances : l.Advances) (unnested : l.nestedInput = false)
    (idle : e.stack = [] → e.conn.readTask.finished = false) :
    e'.work + 2 * l.written.length < e.work + 2 * l.received.length := by
  cases step with
  | sent | refused | hungUp => contradiction
  | @wrote _ _ _ _ n up registered done =>
    have work := output_work e n
    simp only [done] at work
    have some' := List.length_pos_of_ne_nil advances
    simp only [Label.written, Label.wroteOn, Label.received, Option.toList_some,
      List.flatMap_singleton, List.length_nil]
    omega
  | @read _ socket bytes e' dispatch up registered given small looped =>
    have outermost : e.stack = [] := by simpa [Label.nestedInput] using unnested
    have work := loop_work (idle outermost) looped
    have some' := List.length_pos_of_ne_nil given
    simp only [Label.written, Label.wroteOn, Label.received, Option.toList_none,
      List.flatMap_nil, List.length_nil]
    omega
  | handled done =>
    have work := handled_work done
    simpa [Label.written, Label.wroteOn, Label.received] using work

end Connection.Endpoint

namespace Link

/-- What is left to do for the bytes on a link. -/
def work (k : Link) : Nat :=
  ((k.ends .connecting).work + 2 * (k.wire .connecting).length) +
    ((k.ends .accepting).work + 2 * (k.wire .accepting).length)

theorem work_eq (k : Link) (side : Side) :
    k.work = ((k.ends side).work + 2 * (k.wire side).length) +
      ((k.ends side.other).work + 2 * (k.wire side.other).length) := by
  cases side
  · rfl
  · exact Nat.add_comm _ _

theorem step_work {k k' : Link} {side : Side} {l : Label UInt8} (step : Step k (side, l) k')
    (advances : l.Advances) (calm : Calm (side, l))
    (idle : (k.ends side).stack = [] → (k.ends side).conn.readTask.finished = false) :
    k'.work < k.work := by
  cases step with
  | @«at» _ _ _ e rest step taken =>
    have unnested : l.nestedInput = false := by
      cases l with
      | read => exact calm
      | _ => rfl
    have less := step.work_lt advances unnested idle
    rw [work_eq k side, work_eq _ side, after_self, after_other, taken]
    simp only [after, if_pos, Side.other_ne, if_neg, not_false_eq_true, List.length_append]
    omega

end Link

end PBus
