import PBus.Connection.Incoming
import PBus.Link.Basic
import PBus.Session.Messages

/-! A connection that is hung up and connected again. The connecting side keeps its object
with both serial counts; on the other side `LocalBus::Accept` makes a new one for every
socket. Both sides agree on the serials of a socket if the connecting side starts it at zero. -/
namespace PBus
open Transition Connection

/-- `peers s` is the connection accepted for socket `s` of the client; `up s` and `down s` are
the bytes under way on that socket, to the peer and to the client. -/
structure Hub where
  client : Endpoint UInt8
  peers : SocketId → Endpoint UInt8
  up : SocketId → List UInt8
  down : SocketId → List UInt8

namespace Hub

inductive Party where
  | client
  | peer (socket : SocketId)
  deriving DecidableEq

inductive Step : Hub → Party × Label UInt8 → Hub → Prop where
  | client {k : Hub} {l : Label UInt8} {e : Endpoint UInt8} {rest : SocketId → List UInt8} :
      Endpoint.Step k.client l e → (∀ s, k.down s = l.receivedOn s ++ rest s) →
      Step k (.client, l)
        { k with client := e, up := fun s => k.up s ++ writtenOn s [l], down := rest }
  | peer {k : Hub} {s : SocketId} {l : Label UInt8} {e : Endpoint UInt8} {rest : List UInt8} :
      Endpoint.Step (k.peers s) l e → k.up s = l.received ++ rest →
      Step k (.peer s, l) { k with
        peers := Function.update k.peers s e
        up := Function.update k.up s rest
        down := Function.update k.down s (k.down s ++ l.written) }

inductive Started : Hub → Prop where
  | joined : k.client.Started → (∀ s, (k.peers s).Started) → k.up = (fun _ => []) →
      k.down = (fun _ => []) → Started k

def of (party : Party) (hist : List (Party × Label UInt8)) : List (Label UInt8) :=
  hist.filterMap fun step => if step.1 = party then some step.2 else none

@[simp] theorem of_append (party p : Party) (past : List (Party × Label UInt8))
    (l : Label UInt8) :
    of party (past ++ [(p, l)]) = of party past ++ if p = party then [l] else [] :=
  History.party_append party p past l

/-- The client's side of a step: it goes on as in `Outgoing` and `Incoming`, every socket it
opens starts with a frame whose serial is zero, and so does every socket it reads. -/
def ClientAgrees (past : List (Label UInt8)) (e : Endpoint UInt8) (l : Label UInt8) : Prop :=
  Outgoing.Clean past e l ∧ Incoming.Clean past e l ∧
    (l.calls = true → e.conn.socket = none → UInt32.ofNat (Outgoing.gone past e) = 0) ∧
    ∀ s ∈ l.inputSocket, bytesOn s past = [] → e.conn.readSerial = 0

/-- A peer lives as long as its socket, gets no input while it handles a frame, is given
whole frames, and answers only what it was handed. A hang-up comes to one end when the other is
closed, and the client closes its end only at a hang-up, which comes from a peer that has ended: so
the peer gets none. -/
def PeerAgrees (tk : Toolkit) (past : List (Label UInt8)) : Label UInt8 → Prop
  | .hungUp => False
  | .sent _ data => Delimited.Whole (frames UInt8) data ∧
      ∀ serial ∈ Session.answered tk (data.drop 4), serial ∈ (handed past).map Prod.fst
  | .read _ nested _ _ => nested = false
  | _ => True

def Agrees (tk : Toolkit) (past : List (Party × Label UInt8)) (k : Hub) :
    Party × Label UInt8 → Prop
  | (.client, l) => ClientAgrees (of .client past) k.client l
  | (.peer s, l) => PeerAgrees tk (of (.peer s) past) l

instance (tk : Toolkit) (past : List (Party × Label UInt8)) (k : Hub) (l : Party × Label UInt8) :
    Decidable (Agrees tk past k l) :=
  match l with
  | (.client, _) => inferInstanceAs (Decidable (_ ∧ _))
  | (.peer _, .hungUp) => inferInstanceAs (Decidable False)
  | (.peer _, .sent _ _) => inferInstanceAs (Decidable (_ ∧ _))
  | (.peer _, .read _ nested _ _) => inferInstanceAs (Decidable (nested = false))
  | (.peer _, .refused _) | (.peer _, .wrote _ _) | (.peer _, .handled _) =>
    inferInstanceAs (Decidable True)

theorem client_run {C : List (Label UInt8) → Endpoint UInt8 → Label UInt8 → Prop}
    {D : List (Party × Label UInt8) → Hub → Party × Label UInt8 → Prop} {start k : Hub}
    (met : ∀ {past k l}, D past k (.client, l) → C (of .client past) k.client l)
    (run : Guarded Step D start hist k) :
    Guarded Endpoint.Step C start.client (of .client hist) k.client := by
  refine run.history (P := fun hist k => Guarded Endpoint.Step C start.client (of .client hist)
    k.client) ?_ .start
  intro past k l k' before step guard
  cases step with
  | client step => simpa using before.next step (met guard)
  | peer => simpa using before

theorem peer_run {C : List (Label UInt8) → Endpoint UInt8 → Label UInt8 → Prop}
    {D : List (Party × Label UInt8) → Hub → Party × Label UInt8 → Prop} {start k : Hub}
    (s : SocketId) (met : ∀ {past k l}, D past k (.peer s, l) → C (of (.peer s) past) (k.peers s) l)
    (run : Guarded Step D start hist k) :
    Guarded Endpoint.Step C (start.peers s) (of (.peer s) hist) (k.peers s) := by
  refine run.history (P := fun hist k => Guarded Endpoint.Step C (start.peers s)
    (of (.peer s) hist) (k.peers s)) ?_ .start
  intro past k l k' before step guard
  cases step with
  | client => simpa using before
  | @peer t l e rest step =>
    by_cases here : t = s
    · subst here
      simpa using before.next step (met guard)
    · simpa [here, Function.update_of_ne (Ne.symm here)] using before

theorem writtenOn_snoc (s : SocketId) (past : List (Label UInt8)) (l : Label UInt8) :
    writtenOn s (past ++ [l]) = writtenOn s past ++ writtenOn s [l] := by
  simp [writtenOn, List.filterMap_append]

/-- Sockets deliver bytes in order, both ways. -/
theorem wires {start k : Hub} {hist : List (Party × Label UInt8)} (started : Started start)
    (run : Reaches Step start hist k) (s : SocketId) :
    writtenOn s (of .client hist) = bytesRead (of (.peer s) hist) ++ k.up s ∧
      bytesWritten (of (.peer s) hist) = bytesOn s (of .client hist) ++ k.down s := by
  obtain ⟨_, _, silentUp, silentDown⟩ := started
  refine run.history (P := fun hist k => ∀ s,
    writtenOn s (of .client hist) = bytesRead (of (.peer s) hist) ++ k.up s ∧
      bytesWritten (of (.peer s) hist) = bytesOn s (of .client hist) ++ k.down s) ?_ ?_ s
  · intro past k l k' before step s
    obtain ⟨up, down⟩ := before s
    cases step with
    | @client l e rest step taken =>
      constructor
      · simp [writtenOn_snoc, up]
      · simp [Incoming.bytesOn_append, down, taken s]
    | @peer t l e rest step taken =>
      by_cases here : t = s
      · subst here
        constructor
        · simp [up, taken, bytesRead]
        · simp [bytesWritten_append, Label.written, down]
      · constructor
        · simp [here, up, Function.update_of_ne (Ne.symm here)]
        · simp [here, down, Function.update_of_ne (Ne.symm here)]
  · intro s
    simp [of, silentUp, silentDown, writtenOn, bytesRead, bytesWritten, bytesOn]

/-- On socket `s` both sides use the same serials: the peer's frames are those written on the
socket, each under the serial `Send` returned for it, and likewise the client's. -/
structure Agree (s : SocketId) (hist : List (Party × Label UInt8)) : Prop where
  up : ∃ k, writtenOn s (of .client hist) <+: ((sentFrames (of .client hist)).drop k).flatten ∧
    handed (of (.peer s) hist) <+: (sends (of .client hist)).drop k
  down : handedOn s (of .client hist) <+: sends (of (.peer s) hist)

/-- `_requests`: the number of the frame whose `Invoke` entered a parser under a serial last. -/
def registered (tk : Toolkit) (calls : List (UInt32 × List UInt8)) (serial : UInt32) :
    Option Nat :=
  (List.range calls.length).reverse.find? fun i =>
    calls[i]?.any fun call => call.1 = serial && Session.isInvoke tk (call.2.drop 4)

/-- The parser a response goes to was made for a request that the sender of the response was
handed under the serial it answers. -/
def Answers (tk : Toolkit) (hist : List (Party × Label UInt8)) (d : Dispatch UInt8) : Prop :=
  ∀ serial i, Session.answered tk d.payload = some serial →
    registered tk (sends (of .client hist)) serial = some i →
    ∃ frame, (sends (of .client hist))[i]? = some (serial, frame) ∧
      (serial, frame) ∈ handed (of (.peer d.socket) hist)

theorem registered_call {tk : Toolkit} {calls : List (UInt32 × List UInt8)}
    (entry : registered tk calls serial = some i) : ∃ frame, calls[i]? = some (serial, frame) := by
  have found := List.find?_some entry
  rw [Option.any_eq_true] at found
  obtain ⟨⟨serial', frame⟩, call, same⟩ := found
  simp only [Bool.and_eq_true, decide_eq_true_eq] at same
  exact ⟨frame, by rw [call, same.1]⟩

theorem numbered_drop (us : List (List UInt8)) (k : Nat) :
    (numbered us).drop k = numberedFrom (UInt32.ofNat k) (us.drop k) := by
  apply List.ext_getElem
  · simp [numbered, numberedFrom]
  · intro i _ _
    simp [numbered, numberedFrom, UInt32.ofNat_add]

theorem numbered_unique {us : List (List UInt8)} {i j : Nat} {serial : UInt32}
    {u v : List UInt8} (few : us.length ≤ 2 ^ 32)
    (first : (numbered us)[i]? = some (serial, u)) (second : (numbered us)[j]? = some (serial, v)) :
    i = j := by
  simp only [numbered, numberedFrom, List.getElem?_mapIdx, Option.map_eq_some_iff, Prod.mk.injEq,
    UInt32.zero_add] at first second
  obtain ⟨_, here, same, _⟩ := first
  obtain ⟨_, there, rfl, _⟩ := second
  have := (List.getElem?_eq_some_iff.mp here).1
  have := (List.getElem?_eq_some_iff.mp there).1
  have equal := congrArg UInt32.toNat same
  simp only [UInt32.toNat_ofNat'] at equal
  omega

theorem peer_frames {tk : Toolkit} {start k : Hub} {hist : List (Party × Label UInt8)}
    (started : Started start) (run : Guarded Step (Agrees tk) start hist k) (s : SocketId) :
    ∃ us, handed (of (.peer s) hist) = numbered us ∧
      us <+: (Delimited.parse (frames UInt8) (bytesRead (of (.peer s) hist))).1 := by
  obtain ⟨_, peers, _, _⟩ := started
  have run := peer_run (C := fun _ _ l => l.nestedInput = false) s ?_ run
  · cases Reentrancy.progress_run (peers s) run.reaches with
    | sequential us _ decoding inOrder => exact ⟨us, inOrder, decoding.parse_eq.1⟩
    | «repeated» before after first second u nested =>
      obtain ⟨l, hl, nested⟩ := nested
      rw [run.labels l hl] at nested
      contradiction
  · intro past k l met
    cases l <;> simp_all [Agrees, PeerAgrees, Label.nestedInput]

theorem peer_sends {tk : Toolkit} {start k : Hub} {hist : List (Party × Label UInt8)}
    (run : Guarded Step (Agrees tk) start hist k) (s : SocketId) :
    ∀ call ∈ sends (of (.peer s) hist), Delimited.Whole (frames UInt8) call.2 ∧
      ∀ serial, Session.answered tk (call.2.drop 4) = some serial →
        serial ∈ (handed (of (.peer s) hist)).map Prod.fst := by
  have run := peer_run (C := fun past _ l => PeerAgrees tk past l) s (fun met => met) run
  refine run.history (P := fun past _ => ∀ call ∈ sends past,
    Delimited.Whole (frames UInt8) call.2 ∧
      ∀ serial, Session.answered tk (call.2.drop 4) = some serial →
        serial ∈ (handed past).map Prod.fst) ?_ (by simp [sends])
  intro past e l e' before step met call hcall
  rw [Reentrancy.handed_append, List.map_append]
  have sent : call ∈ sends past ∨ call ∈ l.sentCall := by simpa [sends] using hcall
  rcases sent with sent | sent
  · obtain ⟨whole, answers⟩ := before call sent
    exact ⟨whole, fun serial answer => List.mem_append_left _ (answers serial answer)⟩
  · cases l with
    | sent serial data =>
      obtain rfl := List.mem_singleton.mp sent
      obtain ⟨whole, answers⟩ := met
      exact ⟨whole, fun serial answer => List.mem_append_left _ (answers serial answer)⟩
    | _ => simp [Label.sentCall] at sent

theorem agree {tk : Toolkit} {start k : Hub} {hist : List (Party × Label UInt8)}
    (started : Started start) (run : Guarded Step (Agrees tk) start hist k) (s : SocketId) :
    Agree s hist := by
  obtain ⟨up, down⟩ := wires started run.reaches s
  obtain ⟨us, inOrder, first⟩ := peer_frames started run s
  have client := client_run (C := ClientAgrees) (fun met => met) run
  have calls := Outflow.run started.1 client.reaches
  have replies := Outflow.run (started.2 s) (peer_run (C := fun _ _ _ => True) s
    (fun _ => trivial) run).reaches
  constructor
  · have outgoing :
        Outgoing.Invariant (fun k => UInt32.ofNat k = 0) (of .client hist) k.client := by
      refine client.history ?_ (Outgoing.invariant_start started.1 rfl)
      intro past e l e' inv step met
      exact Outgoing.invariant_step inv step met.1.2 met.2.2.1
    rw [inOrder, calls.serials]
    rcases outgoing.closed s with silent | ⟨n, rest, zero, stream⟩
    · have none : us = [] := by
        rw [silent] at up
        rw [(List.append_eq_nil_iff.mp up.symm).1,
          Delimited.parse_unfinished Delimited.partial_nil] at first
        exact List.prefix_nil.mp first
      exact ⟨0, by simp [silent], by simp [none, numbered, numberedFrom]⟩
    · refine ⟨n, ⟨rest, stream⟩, ?_⟩
      rw [numbered_drop, zero]
      apply numbered_initial
      have whole : ∀ u ∈ (sentFrames (of .client hist)).drop n, Delimited.Whole (frames UInt8) u :=
        fun u hu => Outgoing.whole_frames (fun met => met.1.1) client u (List.mem_of_mem_drop hu)
      have parsed := Delimited.parse_eq whole Delimited.partial_nil
      have more := Delimited.parse_initial (frames UInt8) (bytesRead (of (.peer s) hist))
        (k.up s ++ rest)
      rw [← List.append_assoc, ← up, stream, ← List.append_nil (List.flatten _), parsed] at more
      exact first.trans more
  · obtain ⟨cur, _, incoming⟩ : ∃ cur us, Incoming.Invariant (fun n => n = 0) cur us
        (of .client hist) k.client := by
      refine client.history (P := fun hist e => ∃ cur us, Incoming.Invariant _ cur us hist e) ?_
        (Incoming.invariant_start started.1 rfl)
      intro past e l e' inv step met
      exact Incoming.invariant_step inv step met.2.1 met.2.2.2
    obtain ⟨n, vs, rfl, serials, own, _⟩ := incoming.handed_parse rfl s
    rw [serials, replies.serials]
    apply numbered_initial
    have whole : ∀ u ∈ sentFrames (of (.peer s) hist), Delimited.Whole (frames UInt8) u := by
      intro u hu
      have call : (sends (of (.peer s) hist)).map Prod.snd = sentFrames (of (.peer s) hist) := by
        rw [replies.serials, numbered, numberedFrom_frames]
      rw [← call] at hu
      obtain ⟨call, sent, rfl⟩ := List.mem_map.mp hu
      exact (peer_sends run s call sent).1
    have parsed := Delimited.parse_eq whole Delimited.partial_nil
    have more := Delimited.parse_initial (frames UInt8) (bytesOn s (of .client hist))
      (k.down s ++ (k.peers s).conn.queued)
    rw [← List.append_assoc, ← down, replies.bytes, ← List.append_nil (List.flatten _),
      parsed] at more
    exact own.trans more

/-- A response goes to the request it answers while no serial has been used twice. -/
theorem answers {tk : Toolkit} {start k : Hub} {hist : List (Party × Label UInt8)}
    (started : Started start) (run : Guarded Step (Agrees tk) start hist k)
    (few : (sends (of .client hist)).length ≤ 2 ^ 32) {d : Dispatch UInt8}
    (given : d ∈ (of .client hist).flatMap Label.dispatched) : Answers tk hist d := by
  intro serial i answer entry
  obtain ⟨⟨n, _, up⟩, down⟩ := agree started run d.socket
  have calls := (Outflow.run (by cases started; assumption)
    (client_run (C := fun _ _ _ => True) (fun _ => trivial) run).reaches).serials
  obtain ⟨frame, call⟩ := registered_call entry
  -- the response is a frame of the peer, which answers a frame it was handed
  have received : (d.serial, d.frame) ∈ handedOn d.socket (of .client hist) := by
    obtain ⟨l, hl, hd⟩ := List.mem_flatMap.mp given
    refine List.mem_flatMap.mpr ⟨l, hl, ?_⟩
    exact List.mem_map.mpr ⟨d, List.mem_filter.mpr ⟨hd, by simp⟩, rfl⟩
  rw [Dispatch.payload_eq] at answer
  obtain ⟨⟨_, frame'⟩, asked, rfl⟩ := List.mem_map.mp
    ((peer_sends run d.socket _ (down.subset received)).2 serial answer)
  -- that frame is a frame of the client under the same serial, so it is the registered one
  obtain ⟨j, here⟩ := List.mem_iff_getElem?.mp (up.subset asked)
  rw [List.getElem?_drop] at here
  rw [calls] at call here few ⊢
  have same := numbered_unique (by simpa [numbered, numberedFrom] using few) call here
  subst same
  rw [call] at here
  obtain ⟨_, rfl⟩ := Prod.mk.inj (Option.some.inj here)
  exact ⟨frame, call, asked⟩

/-- What can happen to one of the connections; input takes what is first under way to it. -/
def perform (k : Hub) (event : Party × Endpoint.Event UInt8) :
    Option ((Party × Label UInt8) × Hub) :=
  match event.1 with
  | .client =>
    match k.client.perform event.2 with
    | some (l, e) =>
      let k' := { k with client := e, up := fun s => k.up s ++ writtenOn s [l] }
      match l.inputSocket with
      | none => some ((.client, l), k')
      | some s =>
        if l.received = (k.down s).take l.received.length then
          some ((.client, l), { k' with
            down := fun t => if s = t then (k.down t).drop l.received.length else k.down t })
        else none
    | none => none
  | .peer s =>
    match (k.peers s).perform event.2 with
    | some (l, e) =>
      if l.received = (k.up s).take l.received.length then
        some ((.peer s, l), { k with
          peers := Function.update k.peers s e
          up := Function.update k.up s ((k.up s).drop l.received.length)
          down := Function.update k.down s (k.down s ++ l.written) })
      else none
    | none => none

theorem perform_step {k k' : Hub} {event : Party × Endpoint.Event UInt8} {l : Party × Label UInt8}
    (performed : k.perform event = some (l, k')) : Step k l k' := by
  obtain ⟨party, event⟩ := event
  cases party with
  | client =>
    cases acted : k.client.perform event with
    | none => simp [perform, acted] at performed
    | some outcome =>
      obtain ⟨l, e⟩ := outcome
      have step := Endpoint.perform_step acted
      cases l with
      | read socket nested bytes dispatch =>
        simp only [perform, acted, Label.inputSocket, possible_iff] at performed
        obtain ⟨taken, rfl, rfl⟩ := performed
        refine .client step fun t => ?_
        by_cases here : socket = t
        · subst here
          simp only [Label.receivedOn, if_true]
          exact (List.take_append_drop bytes.length _).symm.trans (congrArg (· ++ _) taken.symm)
        · simp [Label.receivedOn, here]
      | _ =>
        simp only [perform, acted, Label.inputSocket, Option.some.injEq,
          Prod.mk.injEq] at performed
        obtain ⟨rfl, rfl⟩ := performed
        exact .client step fun t => rfl
  | peer s =>
    cases step : (k.peers s).perform event with
    | none => simp [perform, step] at performed
    | some outcome =>
      obtain ⟨l, e⟩ := outcome
      simp only [perform, step, possible_iff] at performed
      obtain ⟨taken, rfl, rfl⟩ := performed
      exact .peer (Endpoint.perform_step step)
        ((List.take_append_drop l.received.length _).symm.trans (congrArg (· ++ _) taken.symm))

theorem played (C : List (Party × Label UInt8) → Hub → Party × Label UInt8 → Prop)
    [∀ past k l, Decidable (C past k l)] (start : Hub)
    (events : List (Party × Endpoint.Event UInt8)) :
    Guarded Step C start (play perform C [] start events).1 (play perform C [] start events).2 :=
  play_guarded perform C perform_step .start events

/-- A client before its first `Send`, and the connections that will be accepted for it. -/
def fresh : Hub where
  client := { conn := .create ⟨['a'], 1⟩ }
  peers _ := { conn := .accept ⟨['b'], 1⟩ 0, nextSocket := 1 }
  up _ := []
  down _ := []

end Hub

/-- Every run in which the client starts each socket with both serial counts at zero: the
serials of each socket agree, and responses go to the requests they answer. -/
theorem serials_agree {tk : Toolkit} {start k : Hub} {hist : List (Hub.Party × Label UInt8)}
    (started : Hub.Started start) (run : Guarded Hub.Step (Hub.Agrees tk) start hist k) :
    (∀ socket, Hub.Agree socket hist) ∧
      ((sends (Hub.of .client hist)).length ≤ 2 ^ 32 →
        ∀ d ∈ (Hub.of .client hist).flatMap Label.dispatched, Hub.Answers tk hist d) :=
  ⟨Hub.agree started run, fun few _ given => Hub.answers started run few given⟩

/-- A hang-up before anything is written, and two frames on the next socket. -/
theorem serials_agree_on_next_socket :
    ∃ (hist : List (Hub.Party × Label UInt8)) (k : Hub), Reaches Hub.Step .fresh hist k ∧
      handed (Hub.of (.peer 1) hist) = [(0, [0, 0, 0, 0]), (1, [1, 0, 0, 0, 5])] ∧
      ∀ socket, Hub.Agree socket hist := by
  have run := Hub.played (Hub.Agrees .plain) .fresh
    [(.client, .send [0, 0, 0, 0] true), (.client, .hangup),
      (.client, .send [1, 0, 0, 0, 5] true), (.client, .output 9), (.client, .output 9),
      (.peer 1, .input [0, 0, 0, 0, 1, 0, 0, 0, 5]), (.peer 1, .returned)]
  exact ⟨_, _, run.reaches, by decide +kernel,
    (serials_agree (.joined (.outgoing _) (fun _ => .accepted _ 0) rfl rfl) run).1⟩

/-- The frame of a call of a method without name and arguments on object `id`. -/
def Hub.callOn (id : UInt32) : List UInt8 :=
  frame (Session.invokePayload .plain ⟨⟨[], 1⟩, id⟩ [] [])

/-- After a hang-up the client goes on with serial 1 where the new peer starts with 0, and the
answer to the new request goes to the parser of the old one. -/
theorem serials_disagree :
    ∃ (hist : List (Hub.Party × Label UInt8)) (k : Hub), Reaches Hub.Step .fresh hist k ∧
      sends (Hub.of .client hist) = [(0, Hub.callOn 0), (1, Hub.callOn 1)] ∧
      handed (Hub.of (.peer 1) hist) = [(0, Hub.callOn 1)] ∧ ¬ Hub.Agree 1 hist ∧
      ∃ d ∈ (Hub.of .client hist).flatMap Label.dispatched, ¬ Hub.Answers .plain hist d := by
  obtain ⟨hist, k, run, calls, asked, received⟩ :
      ∃ (hist : List (Hub.Party × Label UInt8)) (k : Hub), Reaches Hub.Step .fresh hist k ∧
      sends (Hub.of .client hist) = [(0, Hub.callOn 0), (1, Hub.callOn 1)] ∧
      handed (Hub.of (.peer 1) hist) = [(0, Hub.callOn 1)] ∧
      ((Hub.of .client hist).flatMap Label.dispatched).map (fun d => (d.socket, d.frame)) =
        [(1, frame (Session.resultPayload .plain 0 []))] :=
    ⟨_, _, (Hub.played (fun _ _ _ => True) .fresh
      [(.client, .send (Hub.callOn 0) true), (.client, .output 99), (.client, .hangup),
        (.client, .send (Hub.callOn 1) true), (.client, .output 99),
        (.peer 1, .input (Hub.callOn 1)),
        (.peer 1, .send (frame (Session.resultPayload .plain 0 [])) true), (.peer 1, .output 99),
        (.client, .input (frame (Session.resultPayload .plain 0 [])))]).reaches,
      by decide +kernel, by decide +kernel, by decide +kernel⟩
  refine ⟨hist, k, run, calls, asked, ?_, ?_⟩
  · rintro ⟨⟨n, _, up⟩, _⟩
    rw [asked, calls] at up
    have member := List.mem_of_mem_drop (up.subset (List.mem_singleton_self _))
    revert member
    decide +kernel
  · obtain ⟨d, given, answer⟩ := List.mem_map.mp
      (received ▸ List.mem_singleton_self (1, frame (Session.resultPayload .plain 0 [])))
    obtain ⟨socket, whole⟩ := Prod.mk.inj answer
    refine ⟨d, given, fun right => ?_⟩
    obtain ⟨stored, call, member⟩ := right 0 0
      (by rw [Dispatch.payload_eq, whole]; decide +kernel) (by rw [calls]; decide +kernel)
    rw [socket, asked] at member
    rw [calls] at call
    obtain rfl : Hub.callOn 0 = stored := by simpa using call
    revert member
    decide +kernel

end PBus
