import PBus.Connection.Chunks
import PBus.Connection.Interest
import PBus.Link.Work
import PBus.Session.Handling
import PBus.Session.Limits

/-! Two sessions that make no more requests: as long as something is under way there is a step
to take, and every step leaves less to do. -/
namespace PBus
open Transition Connection Session

namespace Rpc
variable {tk : Toolkit}

/-- The steps that are taken while nobody makes a request. -/
def Label.Advances : Label tk → Prop
  | .moved _ l => l.Advances
  | .answered _ _ _ _ _ => True
  | .invoked _ _ _ _ | .released _ _ _ | .waited _ _ _ => False

/-- Some answer to the request fits into a frame. -/
def Answerable (tk : Toolkit) (payload : List UInt8) : Prop :=
  ∀ asked, ∃ result outcome : Outcome tk, handle tk payload result = some outcome ∧
    (answerPayload asked outcome).length < 2 ^ 32

def made (past : List (Label tk)) : Nat :=
  (requested .connecting past).length + (requested .accepting past).length

def served (past : List (Label tk)) : Nat :=
  (handled .connecting past).length + (handled .accepting past).length

/-- Every request has been handled on the other side, and nobody waits in vain. -/
structure AtRest (past : List (Label tk)) (k : Rpc tk) : Prop where
  handled : ∀ side, Rpc.handled (Side.other side) past = requested side past
  finished : ∀ side n p, k.requests side n = some p → p.finished = true

/-- A peaceful run to a state in which both connections are in the poll and the requests made
so far can be answered. -/
structure Live (start : Rpc tk) (past : List (Label tk)) (k : Rpc tk) : Prop where
  run : Guarded Step Peaceful start past k
  registered : ∀ side, Registered (k.link.ends side)
  few : made past < 2 ^ 32
  answerable : ∀ side, ∀ payload ∈ requested side past, Answerable tk payload

theorem made_eq (past : List (Label tk)) (side : Side) :
    made past = (requested side past).length + (requested side.other past).length := by
  cases side
  · rfl
  · exact Nat.add_comm _ _

theorem served_eq (past : List (Label tk)) (side : Side) :
    served past = (handled side past).length + (handled side.other past).length := by
  cases side
  · rfl
  · exact Nat.add_comm _ _

theorem sent_count {start k : Rpc tk} {hist : List (Label tk)}
    (run : Guarded Step Peaceful start hist k) (side : Side) :
    (sent side hist).length = (requested side hist).length + (handled side hist).length := by
  refine run.history (P := fun hist _ => (sent side hist).length =
    (requested side hist).length + (handled side hist).length) ?_ rfl
  intro past k l k' before step _
  have single : (l.sent side).length = (l.requested side).length + (l.handled side).length := by
    cases step with
    | invoke side' | release side' | @answer _ side' =>
      by_cases own : side' = side <;>
        simp [Label.sent, Label.link, Link.of, sentFrames, Connection.Label.sentData,
          Label.requested, Label.handled, own]
    | event moved silent => simp [moved_sent side _ silent, Label.requested, Label.handled]
    | dispatch moved gives =>
      simp [moved_sent side _ (dispatched_silent gives), Label.requested, Label.handled]
    | @lost _ side' data =>
      simp [moved_sent side side' (l := .refused data) rfl, Label.requested, Label.handled]
    | wait => simp [Label.sent, Label.link, Link.of, sentFrames, Label.requested, Label.handled]
  simp only [sent_append, requested, handled, List.flatMap_append, List.flatMap_singleton,
    List.length_append] at before ⊢
  omega

theorem handled_le {start k : Rpc tk} {hist : List (Label tk)} (lawful : tk.Lawful)
    (started : Started start) (run : Guarded Step Peaceful start hist k) (side : Side) :
    (handled side hist).length + (inHand k side).length ≤ (requested side.other hist).length := by
  have first := (handled_requested lawful started run side.other).1.length_le
  rwa [Side.other_other, List.length_append] at first

theorem sent_le {start k : Rpc tk} {hist : List (Label tk)} (lawful : tk.Lawful)
    (started : Started start) (run : Guarded Step Peaceful start hist k) (side : Side) :
    (sent side hist).length ≤ made hist := by
  have count := sent_count run side
  have first := handled_le lawful started run side
  rw [made_eq hist side]
  omega

theorem peaceful_few {start k : Rpc tk} {past : List (Label tk)} {l : Label tk}
    (lawful : tk.Lawful) (started : Started start) (run : Guarded Step Peaceful start past k)
    (few : made past < 2 ^ 32) (calm : ∀ x ∈ l.link, Link.Calm x) : Peaceful past k l := by
  refine ⟨calm, fun side act _ _ before asked payload outcome serial _ _ => ?_⟩
  have sent := sent_le lawful started run side
  omega

theorem Live.peaceful {start k : Rpc tk} {past : List (Label tk)} {l : Label tk}
    (lawful : tk.Lawful) (started : Started start) (live : Live start past k)
    (calm : ∀ x ∈ l.link, Link.Calm x) : Peaceful past k l :=
  peaceful_few lawful started live.run live.few calm

theorem step_link {k k' : Rpc tk} {l : Label tk} (step : Step k l k') :
    (∀ x ∈ l.link, Link.Step k.link x k'.link) ∧ (l.link = none → k'.link = k.link) := by
  cases step with
  | invoke _ _ _ _ _ _ moved | release _ _ _ moved | answer _ _ moved | lost _ moved
  | event moved => exact ⟨fun x same => by cases same; exact moved, fun none => by contradiction⟩
  | dispatch moved =>
    rw [onIncomingData_link]
    exact ⟨fun x same => by cases same; exact moved, fun none => by contradiction⟩
  | wait => exact ⟨fun x same => by contradiction, fun _ => rfl⟩

theorem entry_kept {k k' : Rpc tk} {l : Label tk} {side : Side} (step : Step k l k')
    (entry : (k.requests side n).isSome) : (k'.requests side n).isSome := by
  cases step with
  | invoke side' serial ty =>
    by_cases own : side = side'
    · subst own
      by_cases here : n = serial
      · simp [here]
      · simpa [Function.update_of_ne here] using entry
    · simpa [Function.update_of_ne own] using entry
  | dispatch => exact requests_kept entry
  | release | event | answer | lost | wait => exact entry

theorem Label.Advances.unrequested {l : Label tk} (advances : l.Advances) (side : Side) :
    l.requested side = [] := by
  cases l with
  | moved | answered => rfl
  | _ => contradiction

theorem requested_advance {l : Label tk} (advances : l.Advances) (past : List (Label tk))
    (side : Side) : requested side (past ++ [l]) = requested side past := by
  simp [requested, advances.unrequested]

theorem made_advance {l : Label tk} (advances : l.Advances) (past : List (Label tk)) :
    made (past ++ [l]) = made past := by
  rw [made, requested_advance advances, requested_advance advances, made]

theorem registered_next {k k' : Rpc tk} {past : List (Label tk)} {l : Label tk}
    (registered : ∀ side, Registered (k.link.ends side)) (step : Step k l k')
    (peaceful : Peaceful past k l) (side : Side) : Registered (k'.link.ends side) := by
  obtain ⟨moves, stays⟩ := step_link step
  cases link : l.link with
  | none =>
    rw [stays link]
    exact registered side
  | some x =>
    obtain ⟨mover, act⟩ := x
    obtain ⟨own, others⟩ := link_step (moves _ link)
    rcases Side.eq_or_other side mover with rfl | rfl
    · have on : act ≠ .hungUp := by
        rintro rfl
        exact peaceful.1 _ link
      exact (registered_step own on (registered side)).2
    · rw [others]
      exact registered _

theorem Live.snoc {start k k' : Rpc tk} {past : List (Label tk)} {l : Label tk}
    (live : Live start past k) (step : Step k l k') (peaceful : Peaceful past k l)
    (few : made (past ++ [l]) < 2 ^ 32)
    (answerable : ∀ side, ∀ payload ∈ l.requested side, Answerable tk payload) :
    Live start (past ++ [l]) k' where
  run := live.run.next step peaceful
  registered := registered_next live.registered step peaceful
  few := few
  answerable side payload member := by
    rw [requested, List.flatMap_append, List.flatMap_singleton] at member
    rcases List.mem_append.mp member with old | new
    · exact live.answerable side payload old
    · exact answerable side payload new

theorem Live.next {start k k' : Rpc tk} {past : List (Label tk)} {l : Label tk}
    (live : Live start past k) (step : Step k l k') (peaceful : Peaceful past k l)
    (advances : l.Advances) : Live start (past ++ [l]) k' := by
  apply live.snoc step peaceful
  · rw [made_advance advances]
    exact live.few
  · intro side payload member
    rw [advances.unrequested] at member
    contradiction

theorem reading_unfinished {start e : Endpoint UInt8} {hist : List (Connection.Label UInt8)}
    (started : Endpoint.Started start) (run : Reaches Endpoint.Step start hist e)
    (unnested : ∀ l ∈ hist, l.nestedInput = false) (idle : e.stack = []) :
    e.conn.readTask.finished = false := by
  cases Reentrancy.progress_run started run with
  | sequential us quiet decoding => exact (decoding.idle idle).1
  | «repeated» before after first second u nested =>
    obtain ⟨l, member, nested⟩ := nested
    rw [unnested l member] at nested
    contradiction

theorem idle_unfinished {start k : Rpc tk} {hist : List (Label tk)} (started : Started start)
    (run : Guarded Step Peaceful start hist k) (side : Side)
    (idle : (k.link.ends side).stack = []) :
    (k.link.ends side).conn.readTask.finished = false := by
  have calm := link_run run
  obtain ⟨fresh, joined⟩ := started
  refine reading_unfinished (joined.ends side) (Link.end_run calm.reaches side) ?_ idle
  intro l member
  have met := calm.labels _ (Link.mem_of.mp member)
  cases l with
  | read => exact met
  | _ => rfl

/-- What is left to do: the requests that have not been handled, then the work on the link. -/
def rest (past : List (Label tk)) (k : Rpc tk) : Nat × Nat :=
  (made past - served past, k.link.work)

theorem rest_lessens {start k k' : Rpc tk} {past : List (Label tk)} {l : Label tk}
    (lawful : tk.Lawful) (started : Started start) (live : Live start past k)
    (step : Step k l k') (peaceful : Peaceful past k l) (advances : l.Advances) :
    Prod.Lex (· < ·) (· < ·) (rest (past ++ [l]) k') (rest past k) := by
  have polled {side : Side} {act : Connection.Label UInt8} (same : l = .moved side act) :
      Prod.Lex (· < ·) (· < ·) (rest (past ++ [l]) k') (rest past k) := by
    subst same
    have unhandled : served (past ++ [.moved side act]) = served past := by
      simp [served, handled, Label.handled]
    rw [rest, made_advance advances, unhandled]
    refine .right _ (Link.step_work ((step_link step).1 _ rfl) advances (peaceful.1 _ rfl) ?_)
    exact idle_unfinished started live.run side
  cases step with
  | invoke | release | wait => contradiction
  | event | dispatch | lost => exact polled rfl
  | @answer _ side asked serial payload result outcome busy handles moved =>
    refine .left _ _ ?_
    have hand : (inHand k side).length = 1 := by simp [inHand, busy]
    have mine := handled_le lawful started live.run side
    have theirs := handled_le lawful started live.run side.other
    have one : served (past ++ [.answered side asked payload outcome serial]) =
        served past + 1 := by
      rw [served_eq _ side, served_eq _ side]
      simp only [handled, List.flatMap_append, List.flatMap_singleton, Label.handled, if_pos,
        Side.ne_other, if_neg, not_false_eq_true, List.length_append, List.length_singleton,
        List.length_nil]
      omega
    rw [one, made_advance advances, served_eq _ side, made_eq _ side]
    rw [Side.other_other] at theirs
    omega

/-! There is always a step to take. -/

theorem poll_moves {k : Rpc tk} {side : Side} {act : Connection.Label UInt8} {link : Link}
    (moved : Link.Step k.link (side, act) link) (polled : act.calls = false)
    (idle : k.current side = none) : ∃ k', Step k (.moved side act) k' := by
  have silent : act.sentData = [] := by
    cases act with
    | sent | refused => contradiction
    | wrote | hungUp | read | handled => rfl
  have one : act.dispatched = [] ∨ ∃ d, act.dispatched = [d] := by
    cases act with
    | sent | refused | hungUp | wrote => exact .inl rfl
    | read socket nested bytes dispatch | handled dispatch =>
      cases dispatch with
      | none => exact .inl rfl
      | some d => exact .inr ⟨d, rfl⟩
  rcases one with none | ⟨d, gives⟩
  · exact ⟨_, .event moved silent none fun _ _ => idle⟩
  · exact ⟨_, .dispatch moved gives idle⟩

theorem current_requested {start k : Rpc tk} {hist : List (Label tk)} (lawful : tk.Lawful)
    (started : Started start) (run : Guarded Step Peaceful start hist k) {side : Side}
    (busy : k.current side = some (asked, payload)) : payload ∈ requested side.other hist := by
  have first := (handled_requested lawful started run side.other).1
  rw [Side.other_other] at first
  apply first.subset
  simp [inHand, busy]

theorem Live.answer {start k : Rpc tk} {past : List (Label tk)} (lawful : tk.Lawful)
    (started : Started start) (live : Live start past k) {side : Side}
    (busy : k.current side = some (asked, payload)) : ∃ outcome serial k',
      Step k (.answered side asked payload outcome serial) k' ∧
        (answerPayload asked outcome).length < 2 ^ 32 := by
  obtain ⟨result, outcome, handles, fits⟩ :=
    live.answerable _ _ (current_requested lawful started live.run busy) asked
  obtain ⟨socket, link, moved, -⟩ := send_step (frame (answerPayload asked outcome))
    fun _ => (live.registered side).2
  exact ⟨outcome, _, _, .answer busy handles moved, fits⟩

theorem Live.answers {start k : Rpc tk} {past : List (Label tk)} (lawful : tk.Lawful)
    (started : Started start) (live : Live start past k) {side : Side}
    (busy : k.current side = some (asked, payload)) :
    ∃ l k', Step k l k' ∧ Peaceful past k l ∧ l.Advances := by
  obtain ⟨outcome, serial, k', step, fits⟩ := live.answer lawful started busy
  refine ⟨_, k', step, live.peaceful lawful started ?_, trivial⟩
  intro x same
  cases same
  exact ⟨_, rfl, fits⟩

theorem Live.polls {start k : Rpc tk} {past : List (Label tk)} {side : Side}
    {act : Connection.Label UInt8} {link : Link} (lawful : tk.Lawful) (started : Started start)
    (live : Live start past k) (moved : Link.Step k.link (side, act) link)
    (advances : act.Advances) (unnested : act.nestedInput = false)
    (idle : k.current side = none) : ∃ l k', Step k l k' ∧ Peaceful past k l ∧ l.Advances := by
  have polled : act.calls = false := by
    cases act with
    | sent | refused => contradiction
    | wrote | hungUp | read | handled => rfl
  obtain ⟨k', step⟩ := poll_moves moved polled idle
  refine ⟨_, k', step, live.peaceful lawful started ?_, advances⟩
  intro x same
  cases same
  cases act with
  | sent | refused | hungUp => contradiction
  | read => exact unnested
  | wrote | handled => trivial

theorem queue_unfinished {start e : Endpoint UInt8} {hist : List (Connection.Label UInt8)}
    (started : Endpoint.Started start) (run : Reaches Endpoint.Step start hist e)
    (headed : ∀ data ∈ sentFrames hist, 4 ≤ data.length) :
    ∀ t ∈ e.conn.writeQueue, t.finished = false := by
  refine run.history (P := fun hist e => (∀ data ∈ sentFrames hist, 4 ≤ data.length) →
    ∀ t ∈ e.conn.writeQueue, t.finished = false) ?_ ?_ headed
  · intro past e l e' before step headed
    rw [sentFrames_append] at headed
    have before := before fun data member => headed data (List.mem_append_left _ member)
    cases step.writes with
    | sent =>
      refine Interest.unfinished_append (headed _ (List.mem_append_right _ ?_)) before
      exact List.mem_singleton.mpr rfl
    | wrote n =>
      rw [LocalBusConnection.output_eq]
      exact Interest.unfinished_writeFront n before
    | refused | hungUp | reading => exact before
  · cases started <;> exact fun _ t member => by contradiction

theorem Live.unfinished {start k : Rpc tk} {past : List (Label tk)} (live : Live start past k)
    (started : Started start) (side : Side) :
    ∀ t ∈ (k.link.ends side).conn.writeQueue, t.finished = false := by
  have calm := link_run live.run
  obtain ⟨fresh, joined⟩ := started
  refine queue_unfinished (joined.ends side) (Link.end_run calm.reaches side) ?_
  exact fun data member => (frame_length (Link.calm_frames calm.labels side data member)).1

theorem output_moves {k : Link} {side : Side} (registered : Registered (k.ends side))
    (queue : (k.ends side).conn.writeQueue = task :: tasks) (unfinished : task.finished = false) :
    ∃ socket bytes link, Link.Step k (side, .wrote socket bytes) link ∧ bytes ≠ [] := by
  obtain ⟨up, registered⟩ := registered
  obtain ⟨socket, up⟩ := Option.isSome_iff_exists.mp up
  refine ⟨socket, ((k.ends side).output task.getBuffer.length).1, _,
    .at (.wrote up registered rfl) rfl, ?_⟩
  have all : ((k.ends side).output task.getBuffer.length).1 = task.getBuffer := by
    rw [Endpoint.output_eq, LocalBusConnection.output_eq, queue]
    simp [LocalBusConnection.writeFront]
  rw [all]
  simpa [WriteTask.getBuffer, WriteTask.finished] using unfinished

theorem handled_moves {k : Link} {side : Side} (handling : (k.ends side).stack ≠ []) :
    ∃ dispatch link, Link.Step k (side, .handled dispatch) link := by
  obtain ⟨⟨e, dispatch⟩, done⟩ : ∃ next, (k.ends side).handled = some next := by
    cases stack : (k.ends side).stack with
    | nil => exact absurd stack handling
    | cons top below => exact ⟨_, by simp only [Endpoint.handled, stack]; rfl⟩
  exact ⟨dispatch, _, Link.step_silent (.handled done) rfl rfl⟩

theorem input_moves {k : Link} {side : Side} (registered : Registered (k.ends side))
    (idle : (k.ends side).stack = []) (given : k.wire side.other ≠ []) :
    ∃ socket bytes dispatch link, Link.Step k (side, .read socket false bytes dispatch) link := by
  obtain ⟨up, registered⟩ := registered
  obtain ⟨socket, up⟩ := Option.isSome_iff_exists.mp up
  have some' : (k.wire side.other).take readBufferSize ≠ [] := by
    simpa [readBufferSize] using given
  have small := List.length_take_le readBufferSize (k.wire side.other)
  have reads := Endpoint.Step.read up registered some' small rfl
  rw [idle, List.isEmpty_nil, Bool.not_true] at reads
  exact ⟨_, _, _, _, .at reads (List.take_append_drop _ _).symm⟩

/-- As long as something is under way, or in hand, there is a step to take. -/
theorem Live.moves {start k : Rpc tk} {past : List (Label tk)} (lawful : tk.Lawful)
    (started : Started start) (live : Live start past k)
    (unsettled : ¬ ∀ side, Settled side k) :
    ∃ l k', Step k l k' ∧ Peaceful past k l ∧ l.Advances := by
  by_cases hand : ∃ side, (k.current side).isSome
  · obtain ⟨side, busy⟩ := hand
    obtain ⟨⟨asked, payload⟩, busy⟩ := Option.isSome_iff_exists.mp busy
    exact live.answers lawful started busy
  have idle (side : Side) : k.current side = none := by
    rw [← Option.not_isSome_iff_eq_none]
    exact fun busy => hand ⟨side, busy⟩
  by_cases handling : ∃ side, (k.link.ends side).stack ≠ []
  · obtain ⟨side, handling⟩ := handling
    obtain ⟨dispatch, link, moved⟩ := handled_moves handling
    exact live.polls lawful started moved trivial rfl (idle side)
  have between (side : Side) : (k.link.ends side).stack = [] := by
    by_contra busy
    exact handling ⟨side, busy⟩
  by_cases sending : ∃ side, k.link.wire side ≠ []
  · obtain ⟨side, given⟩ := sending
    have arrives : k.link.wire side.other.other ≠ [] := by rwa [Side.other_other]
    obtain ⟨socket, bytes, dispatch, link, moved⟩ :=
      input_moves (live.registered side.other) (between _) arrives
    exact live.polls lawful started moved trivial rfl (idle _)
  · obtain ⟨side, queue⟩ : ∃ side, (k.link.ends side).conn.writeQueue ≠ [] := by
      by_contra empty
      refine unsettled fun side => ⟨⟨?_, ?_, between _⟩, idle _⟩
      · by_contra queue
        exact empty ⟨side, queue⟩
      · by_contra wire
        exact sending ⟨side, wire⟩
    obtain ⟨task, tasks, queue⟩ := List.exists_cons_of_ne_nil queue
    obtain ⟨socket, bytes, link, moved, some'⟩ := output_moves (live.registered side) queue
      (live.unfinished started side task (queue ▸ List.mem_cons_self))
    exact live.polls lawful started moved some' rfl (idle _)

end Rpc
end PBus
