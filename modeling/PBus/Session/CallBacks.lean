import PBus.Connection.Reentrancy
import PBus.Session.Handling

/-! A session whose methods call the peer that called them, and wait for it. The frame being
handled is still in `_readTask` while they wait, so the answer is never read. -/
namespace PBus
open Transition Connection Session

/-- A call of `OnIncomingData` that has not returned. -/
inductive Handler where
  /-- The method asked for by this payload runs; it came under the serial `asked`. -/
  | running (asked : UInt32) (payload : List UInt8)
  /-- It waits for the answer to the request `Send` returned `serial` for. -/
  | waiting (asked serial : UInt32)
  /-- There is nothing to do but to return. -/
  | done
  deriving DecidableEq

/-- The serial of the frame it owes an answer to. -/
def Handler.owed : Handler → Option UInt32
  | .running asked _ | .waiting asked _ => some asked
  | .done => none

/-- A session with one peer. `handlers` are the calls of `OnIncomingData` inside each other,
innermost first. -/
structure Callee (tk : Toolkit) where
  e : Endpoint UInt8
  requests : Requests tk := fun _ => none
  handlers : List Handler := []

namespace Callee
variable {tk : Toolkit}

inductive Label where
  /-- A socket event, or a handler that returned. -/
  | moved (l : Connection.Label UInt8)
  /-- A method called the peer back. -/
  | called (serial : UInt32) (data : List UInt8)
  /-- The answer to the frame that came under `asked` was sent. -/
  | answered (asked serial : UInt32) (data : List UInt8)

def Label.conn : Label → Connection.Label UInt8
  | .moved l => l
  | .called serial data | .answered _ serial data => .sent serial data

/-- What a payload leaves in `_requests`. -/
def store (requests : Requests tk) (payload : List UInt8) : Requests tk :=
  match request tk payload with
  | .ok (.exception data) => onIncomingException requests data
  | .ok (.result data) => onIncomingResult requests data
  | .ok (.invoke _) | .error _ => requests

/-- What has to be done for a frame that was handed over. -/
def handler (tk : Toolkit) (d : Dispatch UInt8) : Handler :=
  if Rpc.asks tk d.payload then .running d.serial d.payload else .done

/-- After a step of the connection that led to `e`. -/
def after (k : Callee tk) (l : Connection.Label UInt8) (e : Endpoint UInt8) : Callee tk where
  e := e
  requests := (l.dispatched.map Dispatch.payload).foldl store k.requests
  handlers := l.dispatched.map (handler tk) ++ k.handlers

/-- The method has come to its end: it does not call back, or its `Wait` has the answer. -/
def Ready (calls : List UInt8 → Prop) (requests : Requests tk) : Handler → Prop
  | .running _ payload => ¬ calls payload
  | .waiting _ serial => (requests serial).any ResponseParser.finished = true
  | .done => False

/-- The steps. `calls` are the payloads whose methods call the peer back and wait for it. A
`Wait` polls, so that anything may arrive in it; none of them times out, and no `Send` throws. -/
inductive Step (calls : List UInt8 → Prop) : Callee tk → Label → Callee tk → Prop where
  | event {k : Callee tk} {l : Connection.Label UInt8} {e : Endpoint UInt8} :
      Endpoint.Step k.e l e → l.calls = false → (∀ d, l ≠ .handled d) →
      k.handlers.head? ≠ some .done → Step calls k (.moved l) (k.after l e)
  | call {k : Callee tk} {e : Endpoint UInt8} {asked serial : UInt32} {payload : List UInt8}
      {outer : List Handler} (ty : tk.Ty) (o : ObjectId) (method : Str) (args : List UInt8) :
      k.handlers = .running asked payload :: outer → calls payload →
      Endpoint.Step k.e (.sent serial (frame (invokePayload tk o method args))) e →
      Step calls k (.called serial (frame (invokePayload tk o method args)))
        { e, requests := Function.update k.requests serial (some (.new ty)),
          handlers := .waiting asked serial :: outer }
  | answer {k : Callee tk} {e : Endpoint UInt8} {h : Handler} {asked serial : UInt32}
      {outer : List Handler} (outcome : Outcome tk) : k.handlers = h :: outer →
      h.owed = some asked → Ready calls k.requests h →
      Endpoint.Step k.e (.sent serial (frame (answerPayload asked outcome))) e →
      Step calls k (.answered asked serial (frame (answerPayload asked outcome)))
        { k with e, handlers := .done :: outer }
  | «return» {k : Callee tk} {e : Endpoint UInt8} {dispatch : Option (Dispatch UInt8)}
      {outer : List Handler} : k.handlers = .done :: outer →
      Endpoint.Step k.e (.handled dispatch) e →
      Step calls k (.moved (.handled dispatch))
        ({ k with handlers := outer }.after (.handled dispatch) e)

inductive Event (tk : Toolkit) where
  | move (event : Endpoint.Event UInt8)
  | call (ty : tk.Ty) (o : ObjectId) (method : Str) (args : List UInt8)
  | answer (outcome : Outcome tk)

instance (calls : List UInt8 → Prop) [DecidablePred calls] (requests : Requests tk)
    (h : Handler) : Decidable (Ready calls requests h) :=
  match h with
  | .running _ _ => inferInstanceAs (Decidable (¬ _))
  | .waiting _ _ => inferInstanceAs (Decidable (_ = _))
  | .done => isFalse id

def perform (calls : List UInt8 → Prop) [DecidablePred calls] (k : Callee tk) :
    Event tk → Option (Label × Callee tk)
  | .move event =>
    match k.e.perform event with
    | some (.handled dispatch, e) =>
      match k.handlers with
      | .done :: outer =>
        some (.moved (.handled dispatch), { k with handlers := outer }.after (.handled dispatch) e)
      | _ => none
    | some (l, e) =>
      if l.calls = true ∨ k.handlers.head? = some .done then none else some (.moved l, k.after l e)
    | none => none
  | .call ty o method args =>
    match k.handlers with
    | .running asked payload :: outer =>
      match k.e.send (frame (invokePayload tk o method args)) true with
      | (e, some serial) =>
        if calls payload then some (.called serial (frame (invokePayload tk o method args)),
          { e, requests := Function.update k.requests serial (some (.new ty)),
            handlers := .waiting asked serial :: outer })
        else none
      | (_, none) => none
    | _ => none
  | .answer outcome =>
    match k.handlers with
    | h :: outer =>
      match h.owed with
      | some asked =>
        match k.e.send (frame (answerPayload asked outcome)) true with
        | (e, some serial) =>
          if Ready calls k.requests h then
            some (.answered asked serial (frame (answerPayload asked outcome)),
              { k with e, handlers := .done :: outer })
          else none
        | (_, none) => none
      | none => none
    | [] => none

theorem perform_step {calls : List UInt8 → Prop} [DecidablePred calls] {k k' : Callee tk}
    {l : Label} {event : Event tk} (performed : k.perform calls event = some (l, k')) :
    Step calls k l k' := by
  cases event with
  | move event =>
    simp only [perform] at performed
    split at performed
    · rename_i dispatch e moved
      split at performed
      · rename_i outer handlers
        simp only [Option.some.injEq, Prod.mk.injEq] at performed
        obtain ⟨rfl, rfl⟩ := performed
        exact .return handlers (Endpoint.perform_step moved)
      · contradiction
    · rename_i l e unhandled moved
      simp only [Option.ite_none_left_eq_some, not_or, Option.some.injEq, Prod.mk.injEq]
        at performed
      obtain ⟨⟨uncalled, idle⟩, rfl, rfl⟩ := performed
      refine .event (Endpoint.perform_step moved) (by simpa using uncalled) ?_ idle
      rintro d rfl
      exact unhandled d rfl
    · contradiction
  | call ty o method args =>
    simp only [perform] at performed
    split at performed
    · rename_i asked payload outer handlers
      split at performed
      · rename_i e serial sent
        simp only [possible_iff] at performed
        obtain ⟨back, rfl, rfl⟩ := performed
        exact .call ty o method args handlers back (.sent sent)
      · contradiction
    · contradiction
  | answer outcome =>
    simp only [perform] at performed
    split at performed
    · rename_i h outer handlers
      split at performed
      · rename_i asked owed
        split at performed
        · rename_i e serial sent
          simp only [possible_iff] at performed
          obtain ⟨ready, rfl, rfl⟩ := performed
          exact .answer outcome handlers owed ready (.sent sent)
        · contradiction
      · contradiction
    · contradiction

def conn (hist : List Label) : List (Connection.Label UInt8) := hist.map Label.conn

theorem Step.conn {calls : List UInt8 → Prop} {k k' : Callee tk} {l : Label}
    (step : Step calls k l k') : Endpoint.Step k.e l.conn k'.e := by
  cases step with
  | event moved | call _ _ _ _ _ _ moved | answer _ _ _ _ moved | «return» _ moved => exact moved

/-- A frame that is handed over is left in `_readTask`. -/
theorem loop_dispatch {e e' : Endpoint UInt8} {socket : SocketId} {data : List UInt8}
    {d : Dispatch UInt8} (looped : e.loop socket data = (e', some d)) :
    e'.conn.readTask = d.task ∧ e'.conn.readSerial = d.serial + 1 := by
  unfold Endpoint.loop at looped
  by_cases finished : e.conn.readTask.finished = true
  · by_cases given : data = []
    · rw [given, LocalBusConnection.scan_nil] at looped
      simp at looped
    · rw [e.conn.scan_finished socket data finished given] at looped
      obtain ⟨rfl, same⟩ := Prod.mk.inj looped
      obtain rfl := Option.some.inj same
      exact ⟨rfl, rfl⟩
  · rw [Bool.not_eq_true] at finished
    have scanned := e.conn.scan_spec socket data finished
    cases result : e.conn.scan socket data with
    | mk conn outcome =>
      rw [result] at scanned looped
      cases scanned with
      | through => simp at looped
      | stopped =>
        obtain ⟨rfl, same⟩ := Prod.mk.inj looped
        obtain rfl := Option.some.inj same
        exact ⟨rfl, rfl⟩

theorem step_dispatch {e e' : Endpoint UInt8} {l : Connection.Label UInt8} {d : Dispatch UInt8}
    (step : Endpoint.Step e l e') (given : l.dispatched = [d]) :
    e'.conn.readTask = d.task ∧ e'.conn.readSerial = d.serial + 1 := by
  rcases step.reads with ⟨-, none, -⟩ | ⟨socket, bytes, dispatch, rfl, -, -, looped⟩ |
    ⟨dispatch, rfl, done⟩
  · rw [none] at given
    contradiction
  · obtain rfl : dispatch = some d := by simpa [Label.dispatched] using given
    exact loop_dispatch looped
  · obtain rfl : dispatch = some d := by simpa [Label.dispatched] using given
    unfold Endpoint.handled at done
    split at done
    · contradiction
    · exact loop_dispatch (Option.some.inj done)

/-- A call of `OnIncomingData` that is not at its end. -/
def Held (calls : List UInt8 → Prop) (requests : Requests tk) : Handler → Prop
  | .running _ payload => calls payload
  | .waiting _ serial => ∃ p, requests serial = some p ∧ p.finished = false
  | .done => False

def Label.Ends : Label → Prop
  | .moved (.handled _) | .answered _ _ _ => True
  | _ => False

/-- How often a socket was read. -/
def reads (hist : List Label) : Nat := ((conn hist).filterMap Label.inputSocket).length

/-- The frame is still in place, and none of the calls begun with it and since is at its end. -/
structure Stuck (calls : List UInt8 → Prop) (d : Dispatch UInt8) (outer : List Handler)
    (past : List Label) (k : Callee tk) : Prop where
  task : k.e.conn.readTask = d.task
  serial : k.e.conn.readSerial = d.serial + 1 + UInt32.ofNat (reads past)
  repeats : handed (conn past) = numberedFrom (d.serial + 1) (List.replicate (reads past) d.frame)
  handlers : ∃ inner, k.handlers = inner ++ outer ∧ inner.length = reads past + 1 ∧
    ∀ h ∈ inner, Held calls k.requests h
  endless : ∀ l ∈ past, ¬ l.Ends

theorem Held.not_ready {calls : List UInt8 → Prop} {requests : Requests tk} {h : Handler}
    (held : Held calls requests h) : ¬ Ready calls requests h := by
  cases h with
  | running => exact fun ready => ready held
  | waiting =>
    obtain ⟨p, entry, open'⟩ := held
    simp [Ready, entry, open']
  | done => contradiction

theorem Held.asked {calls : List UInt8 → Prop} {requests : Requests tk} {h : Handler}
    (held : Held calls requests h) (serial : UInt32) (ty : tk.Ty) :
    Held calls (Function.update requests serial (some (.new ty))) h := by
  cases h with
  | running => exact held
  | waiting asked n =>
    by_cases same : n = serial
    · exact ⟨.new ty, by simp [same], rfl⟩
    · obtain ⟨p, entry, open'⟩ := held
      exact ⟨p, by simpa [Function.update_of_ne same] using entry, open'⟩
  | done => contradiction

theorem Stuck.quiet {calls : List UInt8 → Prop} {d : Dispatch UInt8} {outer : List Handler}
    {past : List Label} {k k' : Callee tk} {l : Label} (stuck : Stuck calls d outer past k)
    (moved : Endpoint.Step k.e l.conn k'.e) (silent : l.conn.inputSocket = none)
    (endless : ¬ l.Ends) (handlers : ∃ inner, k'.handlers = inner ++ outer ∧
      inner.length = reads past + 1 ∧ ∀ h ∈ inner, Held calls k'.requests h) :
    Stuck calls d outer (past ++ [l]) k' := by
  have unread : l.conn.dispatched = [] ∧ k'.e.conn.readTask = k.e.conn.readTask ∧
      k'.e.conn.readSerial = k.e.conn.readSerial := by
    rcases moved.reads with ⟨-, none, -, task, serial, -⟩ | ⟨_, _, _, same, -⟩ | ⟨_, same, -⟩
    · exact ⟨none, task, serial⟩
    · rw [same] at silent
      contradiction
    · cases l with
      | moved act =>
        obtain rfl : act = .handled _ := same
        exact absurd trivial endless
      | called | answered => contradiction
  have count : reads (past ++ [l]) = reads past := by simp [reads, conn, silent]
  constructor
  case task => rw [unread.2.1, stuck.task]
  case serial => rw [unread.2.2, stuck.serial, count]
  case repeats =>
    rw [count, ← stuck.repeats, conn, List.map_append, List.map_singleton,
      Reentrancy.handed_append, unread.1, List.map_nil, List.append_nil]
    rfl
  case handlers => rwa [count]
  case endless =>
    intro m member
    rcases List.mem_append.mp member with old | new
    · exact stuck.endless m old
    · exact List.mem_singleton.mp new ▸ endless

theorem Stuck.again {calls : List UInt8 → Prop} {d : Dispatch UInt8} {outer : List Handler}
    {past : List Label} {k : Callee tk} {e : Endpoint UInt8} {socket : SocketId}
    {bytes : List UInt8} {dispatch : Option (Dispatch UInt8)} (nested : Bool)
    (asks : Rpc.asks tk d.payload = true) (back : calls d.payload)
    (stuck : Stuck calls d outer past k) (given : bytes ≠ [])
    (looped : k.e.loop socket bytes = (e, dispatch)) :
    Stuck calls d outer (past ++ [.moved (.read socket nested bytes dispatch)])
      (k.after (.read socket nested bytes dispatch) e) := by
  obtain ⟨task, serial, inOrder, ⟨inner, handlers, count, held⟩, endless⟩ := stuck
  -- the loop starts with the finished frame
  have scanned := k.e.conn.scan_finished socket bytes (task ▸ d.finished) given
  simp only [Endpoint.loop, scanned, Prod.mk.injEq] at looped
  obtain ⟨rfl, rfl⟩ := looped
  let again : Dispatch UInt8 := ⟨socket, k.e.conn.readSerial, k.e.conn.readTask, task ▸ d.finished⟩
  have payload : again.payload = d.payload := congrArg ReadTask.data task
  have frame : again.frame = d.frame := congrArg ReadTask.pending task
  have more : reads (past ++ [.moved (.read socket nested bytes (some again))]) =
      reads past + 1 := by simp [reads, conn, Label.conn, Connection.Label.inputSocket]
  have stored : store k.requests again.payload = k.requests := by
    unfold Rpc.asks at asks
    unfold store
    rw [payload]
    split at asks <;> simp_all
  constructor
  case task => exact task
  case serial =>
    rw [more, UInt32.ofNat_add, ← UInt32.add_assoc, ← serial]
    rfl
  case repeats =>
    have last : handed (conn past ++ [.read socket nested bytes (some again)]) =
        handed (conn past) ++ [(again.serial, again.frame)] := by
      rw [Reentrancy.handed_append]
      rfl
    rw [conn, List.map_append, List.map_singleton, ← conn, Label.conn, last, inOrder, more,
      List.replicate_succ', numberedFrom_concat, List.length_replicate, frame, ← serial]
  case handlers =>
    have begun : handler tk again = .running again.serial d.payload := by
      rw [handler, payload, if_pos asks]
    have same : (k.after (.read socket nested bytes (some again))
        { k.e with conn := { k.e.conn with readSerial := k.e.conn.readSerial + 1 },
                   stack := ⟨socket, bytes⟩ :: k.e.stack }).requests = k.requests := stored
    refine ⟨handler tk again :: inner, ?_, ?_, ?_⟩
    · exact congrArg (handler tk again :: ·) handlers
    · rw [List.length_cons, count, more]
    · rw [same]
      intro h member
      rcases List.mem_cons.mp member with rfl | old
      · rw [begun]
        exact back
      · exact held h old
  case endless =>
    intro m member
    rcases List.mem_append.mp member with old | new
    · exact endless m old
    · exact List.mem_singleton.mp new ▸ id

theorem Stuck.next {calls : List UInt8 → Prop} {d : Dispatch UInt8} {outer : List Handler}
    {past : List Label} {k k' : Callee tk} {l : Label} (asks : Rpc.asks tk d.payload = true)
    (back : calls d.payload) (stuck : Stuck calls d outer past k) (step : Step calls k l k') :
    Stuck calls d outer (past ++ [l]) k' := by
  have before := stuck
  obtain ⟨task, serial, inOrder, ⟨inner, handlers, count, held⟩, endless⟩ := stuck
  obtain ⟨top, inner, rfl⟩ : ∃ top rest, inner = top :: rest := by
    cases inner with
    | nil => simp at count
    | cons top rest => exact ⟨top, rest, rfl⟩
  have first := held top List.mem_cons_self
  cases step with
  | @event act e moved uncalled unhandled idle =>
    cases act with
    | sent | refused => contradiction
    | handled dispatch => exact absurd rfl (unhandled dispatch)
    | wrote | hungUp =>
      exact before.quiet moved rfl id ⟨_, handlers, count, held⟩
    | read socket nested bytes dispatch =>
      cases moved with
      | read _ _ given _ looped => exact before.again _ asks back given looped
  | @call e asked serial' payload rest ty o method args running calls' moved =>
    refine before.quiet moved rfl id ?_
    obtain ⟨rfl, rfl⟩ := List.cons.inj (running.symm.trans handlers)
    refine ⟨.waiting asked serial' :: inner, rfl, count, fun h member => ?_⟩
    rcases List.mem_cons.mp member with rfl | old
    · exact ⟨.new ty, Function.update_self .., rfl⟩
    · exact (held h (List.mem_cons_of_mem _ old)).asked serial' ty
  | answer outcome top' _ ready =>
    obtain ⟨rfl, -⟩ := List.cons.inj (top'.symm.trans handlers)
    exact absurd ready first.not_ready
  | «return» top' =>
    obtain ⟨rfl, -⟩ := List.cons.inj (top'.symm.trans handlers)
    contradiction

theorem begun {calls : List UInt8 → Prop} {k k' : Callee tk} {l : Label} {d : Dispatch UInt8}
    (step : Step calls k l k') (given : l.conn.dispatched = [d])
    (asks : Rpc.asks tk d.payload = true) :
    ∃ outer, k'.handlers = .running d.serial d.payload :: outer := by
  have first : handler tk d = .running d.serial d.payload := if_pos asks
  cases step with
  | call | answer => contradiction
  | @event act =>
    refine ⟨k.handlers, ?_⟩
    have given : act.dispatched = [d] := given
    simp [after, given, first]
  | @«return» _ dispatch outer =>
    refine ⟨outer, ?_⟩
    have given : (Connection.Label.handled dispatch).dispatched = [d] := given
    simp [after, given, first]

theorem stuck_run {calls : List UInt8 → Prop} {k k₁ k₂ : Callee tk} {l : Label}
    {segment : List Label} {d : Dispatch UInt8} (step : Step calls k l k₁)
    (given : l.conn.dispatched = [d]) (asks : Rpc.asks tk d.payload = true)
    (back : calls d.payload) (run : Reaches (Step calls) k₁ segment k₂) :
    ∃ outer, k₁.handlers = .running d.serial d.payload :: outer ∧
      Stuck calls d outer segment k₂ := by
  obtain ⟨outer, first⟩ := begun step given asks
  obtain ⟨task, serial⟩ := step_dispatch step.conn given
  refine ⟨outer, first, run.history (P := fun segment k => Stuck calls d outer segment k)
    (fun stuck step => stuck.next asks back step) ?_⟩
  constructor
  case task => exact task
  case serial => exact serial.trans (UInt32.add_zero _).symm
  case repeats => rfl
  case handlers =>
    refine ⟨[_], first, rfl, fun h member => ?_⟩
    rw [List.mem_singleton.mp member]
    exact back
  case endless => exact fun l member => by contradiction

def asked : Option (Label × Callee .plain) :=
  perform (fun _ => True) { e := accepted } (.move (.input (frame Rpc.call)))

theorem asked_some : asked.isSome := by decide +kernel

/-- It calls back, and the first byte of the answer arrives. -/
def calling : List (Event .plain) := [.call true Rpc.target ['m'] [], .move (.input [1])]

end Callee

/-- A session of any kind of service, from where a method that calls its caller back was asked
for: until one of the waits times out no call of the method comes to its end or is answered, and
each time the socket is read the request is handed over again and the method called once more. -/
theorem callbacks_never_return {tk : Toolkit} {calls : List UInt8 → Prop} {k k₁ k₂ : Callee tk}
    {l : Callee.Label} {segment : List Callee.Label} {d : Dispatch UInt8}
    (step : Callee.Step calls k l k₁) (given : l.conn.dispatched = [d])
    (asks : Rpc.asks tk d.payload = true) (back : calls d.payload)
    (run : Reaches (Callee.Step calls) k₁ segment k₂) :
    (∀ m ∈ segment, ¬ m.Ends) ∧
    handed (Callee.conn segment) =
      numberedFrom (d.serial + 1) (List.replicate (Callee.reads segment) d.frame) ∧
    k₂.handlers.length = k₁.handlers.length + Callee.reads segment := by
  obtain ⟨outer, first, stuck⟩ := Callee.stuck_run step given asks back run
  obtain ⟨inner, handlers, count, -⟩ := stuck.handlers
  refine ⟨stuck.endless, stuck.repeats, ?_⟩
  rw [handlers, first, List.length_append, count, List.length_cons]
  omega

/-- The first byte of the answer has the method called once more. -/
theorem callbacks_never_return_again :
    ∃ (l : Callee.Label) (k₁ k₂ : Callee .plain) (segment : List Callee.Label),
      Callee.Step (fun _ => True) { e := accepted } l k₁ ∧
      Reaches (Callee.Step fun _ => True) k₁ segment k₂ ∧ Callee.reads segment = 1 ∧
      (∀ m ∈ segment, ¬ m.Ends) ∧ handed (Callee.conn segment) = [(1, frame Rpc.call)] ∧
      k₂.handlers.length = k₁.handlers.length + 1 := by
  let first := Callee.asked.get Callee.asked_some
  have performed : Callee.asked = some (first.1, first.2) :=
    (Option.some_get Callee.asked_some).symm
  have step := Callee.perform_step performed
  have run := (play_guarded (Callee.perform fun _ => True) (fun _ _ _ => True)
    Callee.perform_step .start Callee.calling (s := first.2)).reaches
  have given : first.1.conn.dispatched.map (fun d => (d.serial, d.frame)) =
      [(0, frame Rpc.call)] := by decide +kernel
  obtain ⟨d, dispatched, same⟩ := List.map_eq_singleton_iff.mp given
  obtain ⟨serial, whole⟩ := Prod.mk.inj same
  have asks : Rpc.asks .plain d.payload = true := by
    rw [d.payload_eq, whole]
    decide +kernel
  obtain ⟨endless, again, deeper⟩ :=
    callbacks_never_return step dispatched asks trivial run
  have once : Callee.reads (play (Callee.perform fun _ => True) (fun _ _ _ => True) [] first.2
      Callee.calling).1 = 1 := by decide +kernel
  rw [once, serial, whole] at again
  rw [once] at deeper
  exact ⟨_, _, _, _, step, run, once, endless, again, deeper⟩

end PBus
