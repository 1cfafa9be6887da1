import PBus.Link.Exchange
import PBus.Session.Correlation

/-! The order in which requests are handled: each once, one after the other, as the other side
made them. -/
namespace PBus
open Transition Connection Session

namespace Rpc
variable {tk : Toolkit}

/-- The payload asks for an answer. -/
def asks (tk : Toolkit) (payload : List UInt8) : Bool :=
  match request tk payload with
  | .ok (.invoke _) | .error _ => true
  | .ok (.exception _) | .ok (.result _) => false

/-- The payload of a frame, if it asks for an answer. -/
def asking (tk : Toolkit) (data : List UInt8) : List (List UInt8) :=
  if asks tk (data.drop 4) then [data.drop 4] else []

def Label.requested (side : Side) : Label tk → List (List UInt8)
  | .invoked s _ _ payload | .released s _ payload => if s = side then [payload] else []
  | _ => []

def Label.handled (side : Side) : Label tk → List (List UInt8)
  | .answered s _ payload _ _ => if s = side then [payload] else []
  | _ => []

def requested (side : Side) (hist : List (Label tk)) : List (List UInt8) :=
  hist.flatMap (Label.requested side)

def handled (side : Side) (hist : List (Label tk)) : List (List UInt8) :=
  hist.flatMap (Label.handled side)

/-- The request a side is handling. -/
def inHand (k : Rpc tk) (side : Side) : List (List UInt8) :=
  (k.current side).toList.map Prod.snd

def Registered (e : Endpoint UInt8) : Prop := e.conn.socket.isSome ∧ e.conn.interest.isSome

instance (e : Endpoint UInt8) : Decidable (Registered e) := inferInstanceAs (Decidable (_ ∧ _))

/-- Nothing that `side` sent is under way, and the other side has nothing to answer. -/
def Settled (side : Side) (k : Rpc tk) : Prop :=
  Link.Settled side k.link ∧ k.current side.other = none

theorem asks_handle {payload : List UInt8} {result outcome : Outcome tk}
    (handles : handle tk payload result = some outcome) : asks tk payload = true := by
  unfold handle at handles
  unfold asks
  split at handles <;> simp_all

theorem asks_answer (lawful : tk.Lawful) (serial : UInt32) (outcome : Outcome tk) :
    asks tk (answerPayload serial outcome) = false := by
  cases outcome with
  | error text => rw [answerPayload, asks, request_exception lawful]
  | ok value => rw [answerPayload, asks, request_result lawful]

theorem asks_invoke (lawful : tk.Lawful) (o : ObjectId) (method : Str) (args : List UInt8) :
    asks tk (invokePayload tk o method args) = true := by
  rw [asks, request_invoke lawful]

theorem asks_release (lawful : tk.Lawful) (o : ObjectId) :
    asks tk (releasePayload tk o) = true := by
  rw [asks, request_release lawful]

theorem moved_sent (side side' : Side) {l : Connection.Label UInt8} (silent : l.sentData = []) :
    (Label.moved side' l : Label tk).sent side = [] := by
  by_cases own : side' = side <;> simp [Label.sent, Label.link, Link.of, sentFrames, own, silent]

theorem dispatched_silent {l : Connection.Label UInt8} {d : Dispatch UInt8}
    (gives : l.dispatched = [d]) : l.sentData = [] := by
  cases l <;> simp_all [Connection.Label.sentData, Connection.Label.dispatched]

theorem requested_sent {start k : Rpc tk} {hist : List (Label tk)} (lawful : tk.Lawful)
    (run : Guarded Step Peaceful start hist k) (side : Side) :
    (sent side hist).flatMap (asking tk) = requested side hist := by
  refine run.history (P := fun hist _ =>
    (sent side hist).flatMap (asking tk) = requested side hist) ?_ rfl
  intro past k l k' before step _
  rw [sent_append, requested, List.flatMap_append, List.flatMap_append, before, requested]
  congr 1
  have sends (side' : Side) (serial : UInt32) (payload : List UInt8)
      (link : l.link = some (side', .sent serial (frame payload))) :
      (l.sent side).flatMap (asking tk) =
        if side' = side then asking tk (frame payload) else [] := by
    by_cases own : side' = side <;>
      simp [Label.sent, link, Link.of, sentFrames, own, Connection.Label.sentData]
  cases step with
  | invoke side' serial ty o method args =>
    rw [sends side' serial _ rfl, asking, frame_drop, if_pos (asks_invoke lawful o method args)]
    simp [Label.requested]
  | release side' serial o =>
    rw [sends side' serial _ rfl, asking, frame_drop, if_pos (asks_release lawful o)]
    simp [Label.requested]
  | @answer _ side' asked serial payload result outcome busy handles =>
    have quiet := asks_answer lawful asked outcome
    rw [sends side' serial _ rfl, asking, frame_drop, quiet]
    simp [Label.requested]
  | event moved silent => simp [moved_sent side _ silent, Label.requested]
  | dispatch moved gives =>
    simp [moved_sent side _ (dispatched_silent gives), Label.requested]
  | @lost _ side' data =>
    simp [moved_sent side side' (l := .refused data) rfl, Label.requested]
  | wait => simp [Label.sent, Label.link, Link.of, sentFrames, Label.requested]

theorem numbered_asking (us : List (List UInt8)) :
    (numbered us).flatMap (fun frame => asking tk frame.2) = us.flatMap (asking tk) := by
  conv_rhs => rw [← numberedFrom_frames 0 us, List.flatMap_map]
  rfl

theorem inHand_dispatch {k : Rpc tk} {side : Side} (idle : k.current side = none)
    (d : Dispatch UInt8) : inHand (onIncomingData k side d) side = asking tk d.frame := by
  have payload := d.payload_eq
  unfold inHand onIncomingData asking asks
  rw [← payload]
  split <;> rename_i read <;> simp [read, idle]

theorem inHand_other {k : Rpc tk} {side other : Side} (apart : other ≠ side)
    (d : Dispatch UInt8) : inHand (onIncomingData k side d) other = inHand k other := by
  unfold inHand
  rcases onIncomingData_current k side d with same | busy
  · rw [same]
  · rw [busy, Function.update_of_ne apart]

/-- A connection that is in the poll stays there, and takes every frame, until it is hung up. -/
theorem registered_step {e e' : Endpoint UInt8} {l : Connection.Label UInt8}
    (step : Endpoint.Step e l e') (on : l ≠ .hungUp) (registered : Registered e) :
    (∀ data, l ≠ .refused data) ∧ Registered e' := by
  obtain ⟨up, registered⟩ := registered
  obtain ⟨socket, up⟩ := Option.isSome_iff_exists.mp up
  cases step with
  | sent done =>
    obtain ⟨_, _, ⟨_, _, rfl⟩ | ⟨absent, _⟩⟩ := Endpoint.send_cases done
    · exact ⟨by simp, rfl, rfl⟩
    · contradiction
  | refused done =>
    rw [Endpoint.send_eq, LocalBusConnection.send_connected up,
      LocalBusConnection.enqueue_registered registered] at done
    simp at done
  | wrote _ _ done =>
    rw [Endpoint.output_eq, Prod.mk.injEq] at done
    obtain ⟨-, rfl⟩ := done
    refine ⟨by simp, ?_, ?_⟩ <;> simp only [LocalBusConnection.output_eq]
    · rw [up]; rfl
    · split <;> simp [registered]
  | hungUp => exact absurd rfl on
  | read _ _ _ _ done =>
    obtain ⟨task, serial, stack, eq, _⟩ := Endpoint.loop_frame e _ _
    rw [done] at eq
    obtain rfl := eq
    exact ⟨by simp, by rw [up]; rfl, registered⟩
  | handled done =>
    obtain ⟨_, _, task, serial, stack, _, rfl, _⟩ := Endpoint.handled_frame done
    exact ⟨by simp, by rw [up]; rfl, registered⟩

theorem stack_registered {start e : Endpoint UInt8} {hist : List (Connection.Label UInt8)}
    (started : Endpoint.Started start) (run : Reaches Endpoint.Step start hist e)
    (on : ∀ l ∈ hist, l ≠ .hungUp) : e.stack ≠ [] → Registered e := by
  refine (Guarded.of_labels run on).history (P := fun _ e => e.stack ≠ [] → Registered e) ?_ ?_
  · intro past e l e' before step on busy
    by_cases idle : e.stack = []
    · cases step with
      | read up registered _ _ done =>
        have was : Registered e := ⟨by rw [up]; rfl, registered⟩
        exact (registered_step (.read up registered ‹_› ‹_› done) on was).2
      | handled done => simp [Endpoint.handled, idle] at done
      | sent done | refused done =>
        obtain ⟨_, _, ⟨_, _, rfl⟩ | ⟨_, rfl⟩⟩ := Endpoint.send_cases done <;>
          exact absurd idle busy
      | wrote _ _ done =>
        rw [Endpoint.output_eq, Prod.mk.injEq] at done
        obtain ⟨-, rfl⟩ := done
        exact absurd idle busy
      | hungUp => exact absurd rfl on
    · exact (registered_step step on (before idle)).2
  · cases started <;> exact fun busy => absurd rfl busy

theorem link_step {k k' : Link} {side : Side} {l : Connection.Label UInt8}
    (step : Link.Step k (side, l) k') :
    Endpoint.Step (k.ends side) l (k'.ends side) ∧ k'.ends side.other = k.ends side.other := by
  cases step with
  | «at» step taken => exact ⟨by rwa [Link.after_self], Link.after_other _ _ _ _ _⟩

theorem loop_busy {e e' : Endpoint UInt8} {bytes : List UInt8} {d : Dispatch UInt8}
    (looped : e.loop socket bytes = (e', some d)) : e'.stack ≠ [] := by
  unfold Endpoint.loop at looped
  split at looped
  · simp at looped
  · obtain ⟨rfl, -⟩ := Prod.mk.inj looped
    exact List.cons_ne_nil _ _

theorem loop_through {e e' : Endpoint UInt8} {bytes : List UInt8}
    (looped : e.loop socket bytes = (e', none)) : e'.stack = e.stack := by
  unfold Endpoint.loop at looped
  split at looped
  · obtain ⟨rfl, -⟩ := Prod.mk.inj looped
    rfl
  · simp at looped

theorem dispatched_busy {e e' : Endpoint UInt8} {l : Connection.Label UInt8} {d : Dispatch UInt8}
    (step : Endpoint.Step e l e') (gives : l.dispatched = [d]) : e'.stack ≠ [] := by
  rcases step.reads with ⟨-, none, -⟩ | ⟨socket, bytes, dispatch, rfl, -, -, looped⟩ |
    ⟨dispatch, rfl, done⟩
  · simp [none] at gives
  · obtain rfl := Option.toList_eq_singleton_iff.mp gives
    exact loop_busy looped
  · obtain rfl := Option.toList_eq_singleton_iff.mp gives
    unfold Endpoint.handled at done
    split at done
    · contradiction
    · exact loop_busy (Option.some.inj done)

/-- Only the return of a handler ends the handling of a frame. -/
theorem undispatched_busy {e e' : Endpoint UInt8} {l : Connection.Label UInt8}
    (step : Endpoint.Step e l e') (silent : l.dispatched = []) (on : ∀ d, l ≠ .handled d) :
    e'.stack = e.stack := by
  rcases step.reads with ⟨-, -, -, -, -, same⟩ | ⟨socket, bytes, dispatch, rfl, -, -, looped⟩ |
    ⟨dispatch, rfl, -⟩
  · exact same
  · obtain rfl := Option.toList_eq_nil_iff.mp silent
    exact loop_through looped
  · exact absurd rfl (on dispatch)

theorem current_busy {start k : Rpc tk} {hist : List (Label tk)} (started : Started start)
    (run : Guarded Step Peaceful start hist k) :
    ∀ side, (k.current side).isSome → (k.link.ends side).stack ≠ [] := by
  refine run.history (P := fun _ k =>
    ∀ side, (k.current side).isSome → (k.link.ends side).stack ≠ []) ?_ ?_
  · intro past k l k' before step _ side busy
    have kept {link : Link} {mover : Side} {act : Connection.Label UInt8}
        (moved : Link.Step k.link (mover, act) link) (silent : act.dispatched = [])
        (on : mover = side → ∀ d, act ≠ .handled d) (was : (k.current side).isSome) :
        (link.ends side).stack ≠ [] := by
      obtain ⟨step, others⟩ := link_step moved
      rcases Side.eq_or_other side mover with rfl | rfl
      · rw [undispatched_busy step silent (on rfl)]
        exact before side was
      · rw [others]
        exact before _ was
    have unanswered {answerer : Side}
        (busy : (Function.update k.current answerer none side).isSome) :
        (k.current side).isSome := by
      obtain ⟨request, here⟩ := Option.isSome_iff_exists.mp busy
      exact Option.isSome_iff_exists.mpr ⟨request, of_update_none here⟩
    cases step with
    | invoke _ _ _ _ _ _ moved | release _ _ _ moved => exact kept moved rfl (by simp) busy
    | event moved _ silent returned =>
      refine kept moved silent ?_ busy
      rintro rfl d rfl
      simp [returned d rfl] at busy
    | @dispatch link mover act d moved gives idle =>
      obtain ⟨step, others⟩ := link_step moved
      rw [onIncomingData_link]
      rcases Side.eq_or_other side mover with rfl | rfl
      · exact dispatched_busy step gives
      · rw [others]
        apply before
        rcases onIncomingData_current { k with link } mover d with same | update
        · rwa [same] at busy
        · rwa [update, Function.update_of_ne (Side.other_ne mover)] at busy
    | answer _ _ moved | lost _ moved => exact kept moved rfl (by simp) (unanswered busy)
    | wait => exact before side busy
  · obtain ⟨link, _⟩ := started
    intro side busy
    contradiction

theorem current_registered {start k : Rpc tk} {hist : List (Label tk)} (started : Started start)
    (run : Guarded Step Peaceful start hist k) (side : Side) (busy : (k.current side).isSome) :
    Registered (k.link.ends side) := by
  have handling := current_busy started run side busy
  have calm := link_run run
  obtain ⟨fresh, joined⟩ := started
  refine stack_registered (joined.ends side) (Link.end_run calm.reaches side) ?_ handling
  rintro l member rfl
  exact calm.labels _ (Link.mem_of.mp member)

theorem handled_received {start k : Rpc tk} {hist : List (Label tk)} (started : Started start)
    (run : Guarded Step Peaceful start hist k) (side : Side) :
    handled side hist ++ inHand k side =
      (received side hist).flatMap fun frame => asking tk frame.2 := by
  have both : Guarded Step Peaceful start hist k ∧ handled side hist ++ inHand k side =
      (received side hist).flatMap fun frame => asking tk frame.2 := by
    refine run.history (P := fun hist k => Guarded Step Peaceful start hist k ∧
      handled side hist ++ inHand k side =
        (received side hist).flatMap fun frame => asking tk frame.2) ?_ ⟨.start, ?_⟩
    · rintro past k l k' ⟨run, before⟩ step peaceful
      refine ⟨run.next step peaceful, ?_⟩
      have quiet (same : inHand k' side = inHand k side) (none : l.handled side = [])
          (unread : ∀ x ∈ l.link, x.1 = side → x.2.dispatched = []) :
          handled side (past ++ [l]) ++ inHand k' side =
            (received side (past ++ [l])).flatMap fun frame => asking tk frame.2 := by
        rw [received_quiet side past unread, ← before, handled, handled, List.flatMap_append,
          List.flatMap_singleton, none, List.append_nil, same]
      cases step with
      | invoke | release => exact quiet rfl rfl fun x link _ => by cases link; rfl
      | event moved silent unread =>
        exact quiet rfl rfl fun x link _ => by cases link; exact unread
      | wait => exact quiet rfl rfl fun x link _ => by cases link
      | @dispatch link side' l d moved gives idle =>
        by_cases here : side' = side
        · subst here
          have empty : inHand k side' = [] := by rw [inHand, idle]; rfl
          rw [empty, List.append_nil] at before
          rw [received_dispatch side' past rfl gives, inHand_dispatch (k := { k with link }) idle,
            handled, List.flatMap_append, ← handled, before]
          simp [Label.handled]
        · refine quiet (inHand_other (Ne.symm here) d) rfl ?_
          exact fun x link this => by cases link; exact absurd this here
      | @answer link side' asked serial payload result outcome busy handles moved =>
        by_cases here : side' = side
        · subst here
          rw [received_quiet side' past fun x link _ => by cases link; rfl, ← before, inHand,
            inHand, busy, handled, handled]
          simp [Label.handled]
        · refine quiet ?_ (by simp [Label.handled, here]) fun x link _ => by cases link; rfl
          simp [inHand, Function.update_of_ne (Ne.symm here)]
      | @lost link side' data busy moved =>
        -- an answer is not refused: the connection is still in the poll
        have registered := current_registered started run side' busy
        exact absurd rfl ((registered_step (link_step moved).1 (by simp) registered).1 data)
    · obtain ⟨link, _⟩ := started
      rfl
  exact both.2

/-- The requests that a side has handled, with the one in hand, are the first that the other
side made, each once and in their order; and all of them once nothing is under way. -/
theorem handled_requested {start k : Rpc tk} {hist : List (Label tk)} (lawful : tk.Lawful)
    (started : Started start) (run : Guarded Step Peaceful start hist k) (side : Side) :
    handled side.other hist ++ inHand k side.other <+: requested side hist ∧
      (Settled side k → handled side.other hist = requested side hist) := by
  have calm := link_run run
  obtain ⟨fresh, joined⟩ := started
  obtain ⟨us, inOrder, first, all⟩ := Link.handed_sent joined calm.reaches calm.labels side
  have given := handled_received (.joined fresh joined) run side.other
  rw [received, inOrder, numbered_asking] at given
  rw [given, ← requested_sent lawful run side, sent_eq side hist]
  constructor
  · obtain ⟨rest, same⟩ := first
    rw [← same, List.flatMap_append]
    exact List.prefix_append _ _
  · rintro ⟨settled, idle⟩
    rw [inHand, idle] at given
    rw [all settled] at given
    simpa using given

theorem Entry.own {start k : Rpc tk} {hist before last : List (Label tk)} {side : Side}
    {p : ResponseParser tk} {ty : tk.Ty} {payload payload' : List UInt8} (started : Started start)
    (run : Guarded Step Peaceful start hist k) (entry : Entry hist side n p last payload')
    (here : before ++ [.invoked side n ty payload] <+: hist)
    (few : (sent side hist).length ≤ (sent side before).length + 2 ^ 32) :
    last = before ∧ p.ty = ty ∧ payload' = payload := by
  have after := History.count_lt entry.asked (Label.sent_link side rfl)
  have number := serial_eq started run here rfl
  have number' := serial_eq started run entry.asked rfl
  rcases History.position_cases here entry.asked with ⟨rfl, same⟩ | earlier | later
  · cases same
    exact ⟨rfl, rfl, rfl⟩
  · -- the serial would have been used again, 2^32 frames later
    have between := History.count_lt earlier (Label.sent_link side rfl)
    have same := same_number (number.symm.trans number') (Nat.lt_add_right _ between)
      (Nat.lt_of_lt_of_le after few)
    exact absurd same (Nat.ne_of_lt between)
  · have outside := entry.latest before ty payload here
    have := later.length_le
    have := outside.length_le
    simp only [List.length_append, List.length_singleton] at *
    omega

theorem sent_initial (side : Side) {before hist : List (Label tk)} (here : before <+: hist) :
    sent side before <+: sent side hist := by
  obtain ⟨rest, rfl⟩ := here
  simp [sent]

theorem handled_before {start k : Rpc tk} {hist handling before : List (Label tk)} (side : Side)
    {ty : tk.Ty} {payload : List UInt8} {outcome : Outcome tk} (lawful : tk.Lawful)
    (started : Started start) (run : Guarded Step Peaceful start hist k)
    (here : handling ++ [.answered side.other asked payload outcome serial] <+: hist)
    (there : before ++ [.invoked side n ty payload] <+: hist)
    (count : (received side.other handling).length = (sent side before).length + 1) :
    handled side.other handling = requested side before := by
  obtain ⟨u, v, runHandling, step, -⟩ := run.at_label here
  obtain ⟨u', v', runBefore, -, -⟩ := run.at_label there
  have inside : handling <+: hist := (List.prefix_append _ _).trans here
  have given := handled_received started runHandling side.other
  obtain ⟨us, inOrder, first⟩ := received_sent started runHandling side
  have frames : us = sent side before ++ [frame payload] := by
    have sentFirst : us <+: sent side hist := first.trans (sent_initial side inside)
    have sentSecond : sent side before ++ [frame payload] <+: sent side hist := by
      have carried := sent_initial side there
      rwa [sent_append, Label.sent_link side rfl] at carried
    refine (List.prefix_of_prefix_length_le sentFirst sentSecond ?_).eq_of_length ?_ <;>
      rw [inOrder] at count <;> simp_all [numbered, numberedFrom]
  cases step with
  | answer busy handles =>
    have hand : inHand u side.other = [payload] := by rw [inHand, busy]; rfl
    rw [inOrder, numbered_asking, frames, List.flatMap_append, requested_sent lawful runBefore,
      hand, List.flatMap_singleton, asking, frame_drop, if_pos (asks_handle handles)] at given
    exact List.append_cancel_right given

end Rpc
end PBus
