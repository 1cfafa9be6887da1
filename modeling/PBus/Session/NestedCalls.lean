import PBus.Session.Network

/-! Calls inside each other: whatever processes call each other, also in a circle back to one
that waits, there is a step to take until every call has returned. -/
namespace PBus
open Transition Connection Session

namespace Network
variable {tk : Toolkit} {P L : Type}

/-- A socket event lets something move, as in `Rpc`. -/
def Productive (x : L × Rpc.Label tk) : Prop :=
  match x.2 with
  | .moved _ act => act.Advances
  | .invoked _ _ _ _ | .released _ _ _ | .answered _ _ _ _ _ | .waited _ _ _ => True

/-- The steps that are taken while nobody makes a request. -/
def Proceeds (x : L × Rpc.Label tk) : Prop := Productive x ∧ x.2.requests = false

def calls (past : List (L × Rpc.Label tk)) : Nat := (past.filter fun x => x.2.requests).length

theorem calls_append (past : List (L × Rpc.Label tk)) (x : L × Rpc.Label tk) :
    calls (past ++ [x]) = calls past + if x.2.requests then 1 else 0 := by
  rw [calls, List.filter_append, List.length_append, calls]
  cases requests : x.2.requests <;> simp [requests]

theorem Proceeds.unrequested {l : L} {x : Rpc.Label tk} (proceeds : Proceeds (l, x))
    (side : Side) : x.requested side = [] := by
  cases x with
  | moved | answered | waited => rfl
  | invoked | released =>
    obtain ⟨-, requests⟩ := proceeds
    contradiction

variable [DecidableEq L] {owner : L → Side → P} {origin : L → Rpc tk}
  {before : L → List (Rpc.Label tk)} {start h h' : Network tk P L}
  {past : List (L × Rpc.Label tk)} {x : L × Rpc.Label tk}

/-- Every call has returned, and every request was handled. -/
structure Quiet (before : L → List (Rpc.Label tk)) (past : List (L × Rpc.Label tk))
    (h : Network tk P L) : Prop where
  returned : ∀ p, h.tasks p = []
  links : ∀ l, Rpc.AtRest (before l ++ of l past) (h.links l)

theorem Kept.initial (started : Started origin before start) :
    Kept owner origin before [] start := by
  have settled := started.settled
  have idle (l : L) (side : Side) : ((start.links l).current side) = none := by
    have none := (settled l side.other).2
    rwa [Side.other_other] at none
  have none (p : P) : start.tasks p = [] := congrFun started.tasks p
  constructor
  case live =>
    intro l
    simpa [of] using started.live l
  case alone =>
    intro l
    have run := (started.live l).run
    have all (side : Side) : (Rpc.received side.other (before l)).length =
        (Rpc.sent side (before l)).length := by
      rw [Rpc.settled_received (started.fresh l) run (settled l side), Link.numbered_length]
    have first := all .connecting
    have second := all .accepting
    simp only [Side.other] at first second
    simp only [Rpc.Alone, of, List.filterMap_nil, List.append_nil, Rpc.inHand, idle,
      Option.toList_none, List.map_nil, List.length_nil]
    omega
  case owned =>
    intro p t member
    rw [none] at member
    contradiction
  case handling =>
    intro l side
    have empty := (settled l side.other).1.2.2
    rw [Side.other_other] at empty
    rw [none, empty]
    rfl
  case owing =>
    intro p t outer top
    rw [none] at top
    contradiction
  case waiting =>
    intro p l side serial member
    rw [none] at member
    contradiction
  case dated =>
    rw [started.tasks]
    exact .start

theorem Proceeds.orderly {l : L} {x : Rpc.Label tk} (proceeds : Proceeds (l, x))
    (kept : Kept owner origin before past h) (framed : ∀ y ∈ x.link, Link.Framed y) :
    Orderly before past h (l, x) where
  framed := framed
  single := fun ⟨side, asks⟩ => absurd (proceeds.unrequested side) asks
  few := by
    have few := (kept.live l).few
    simpa [Rpc.made, Rpc.requested, proceeds.unrequested] using few
  answerable side payload member := by
    rw [proceeds.unrequested] at member
    contradiction

/-- While a frame is handled in a process that polls, or has not been answered, nothing is under
way on its link. -/
theorem Kept.still (kept : Kept owner origin before past h) (started : Started origin before start)
    {l : L} {side : Side} (busy : ((h.links l).current side).isSome ∨
      ((h.links l).link.ends side).stack ≠ [] ∧ polls (h.tasks (owner l side)) = true)
    (s : Side) : (h.links l).link.wire s = [] := by
  have owes : ((h.links l).current side).isSome := by
    rcases busy with owes | ⟨handling, idle⟩
    · exact owes
    · exact kept.inside idle handling
  exact (kept.silent started owes s).2

variable [DecidableEq P]

theorem Kept.run (lawful : tk.Lawful) (started : Started origin before start)
    (run : Guarded (Step owner) (Orderly before) start past h) :
    Kept owner origin before past h :=
  run.history (P := fun past h => Kept owner origin before past h)
    (fun kept step orderly => kept.next lawful started step orderly) (.initial started)

/-! There is always a step to take. -/

theorem Kept.proceed (kept : Kept owner origin before past h) {l : L} {x : Rpc.Label tk}
    {k : Rpc tk} {stack : List (Task L)} (step : Rpc.Step (h.links l) x k)
    (turn : Turn h l x (h.tasks (owner l x.side)) stack) (proceeds : Proceeds (l, x))
    (framed : ∀ y ∈ x.link, Link.Framed y) :
    ∃ x h', Step owner h x h' ∧ Orderly before past h x ∧ Proceeds x :=
  ⟨_, _, .at step turn, proceeds.orderly kept framed, proceeds⟩

theorem Kept.handles (kept : Kept owner origin before past h) (lawful : tk.Lawful)
    (started : Started origin before start) {l : L} {side : Side} {outer : List (Task L)}
    (top : h.tasks (owner l side) = .handles l side :: outer) :
    ∃ x h', Step owner h x h' ∧ Orderly before past h x ∧ Proceeds x := by
  cases busy : (h.links l).current side with
  | some request =>
    obtain ⟨asked, payload⟩ := request
    obtain ⟨outcome, serial, k, step, fits⟩ := (kept.live l).answer lawful (started.fresh l) busy
    have turn : Turn h l (.answered side asked payload outcome serial) (h.tasks (owner l side))
        (.handles l side :: outer) := by
      rw [top]
      exact .answer
    refine kept.proceed step turn ⟨trivial, rfl⟩ ?_
    intro y link
    cases link
    exact ⟨_, rfl, fits⟩
  | none =>
    have handling : ((h.links l).link.ends side).stack ≠ [] := by
      rw [← List.length_pos_iff, ← kept.handling, top, List.count_cons_self]
      exact Nat.succ_pos _
    obtain ⟨dispatch, link, moved⟩ := Rpc.handled_moves handling
    obtain ⟨k, step⟩ := Rpc.poll_moves moved rfl busy
    have turn : Turn h l (.moved side (.handled dispatch)) (h.tasks (owner l side))
        (entered l side (.handled dispatch) ++ outer) := by
      rw [top]
      exact .leave
    refine kept.proceed step turn ⟨trivial, rfl⟩ ?_
    intro y link
    cases link
    trivial

theorem Kept.reads (kept : Kept owner origin before past h) (started : Started origin before start)
    (idle : ∀ p, polls (h.tasks p) = true) {l : L} {side : Side}
    (given : (h.links l).link.wire side.other ≠ []) :
    ∃ x h', Step owner h x h' ∧ Orderly before past h x ∧ Proceeds x := by
  have free : (h.links l).current side = none := by
    rw [← Option.not_isSome_iff_eq_none]
    exact fun busy => given (kept.silent started busy side.other).2
  have between : ((h.links l).link.ends side).stack = [] := by
    by_contra busy
    have owes := kept.inside (idle _) busy
    rw [free] at owes
    contradiction
  obtain ⟨socket, bytes, dispatch, link, moved⟩ :=
    Rpc.input_moves ((kept.live l).registered side) between given
  obtain ⟨k, step⟩ := Rpc.poll_moves moved rfl free
  refine kept.proceed step (.poll (idle _) (by simp) (by simp)) ⟨trivial, rfl⟩ ?_
  intro y same
  cases same
  trivial

theorem Kept.writes (kept : Kept owner origin before past h) (started : Started origin before start)
    (idle : ∀ p, polls (h.tasks p) = true) {l : L} {side : Side}
    (queue : ((h.links l).link.ends side).conn.writeQueue ≠ []) :
    ∃ x h', Step owner h x h' ∧ Orderly before past h x ∧ Proceeds x := by
  have live := kept.live l
  obtain ⟨task, tasks, queue⟩ := List.exists_cons_of_ne_nil queue
  obtain ⟨socket, bytes, link, moved, some'⟩ :=
    Rpc.output_moves (live.registered side) queue
      (live.unfinished (started.fresh l) side task (queue ▸ List.mem_cons_self))
  refine kept.proceed (.event moved rfl rfl (by simp)) (.poll (idle _) (by simp) (by simp))
    ⟨some', rfl⟩ ?_
  intro y same
  cases same
  trivial

theorem Kept.waits (kept : Kept owner origin before past h) (lawful : tk.Lawful)
    (started : Started origin before start) {l : L} {side : Side} {serial : UInt32}
    {outer : List (Task L)} (top : h.tasks (owner l side) = .waits l side serial :: outer)
    (all : ∀ side, Rpc.received (Side.other side) (before l ++ of l past) =
      numbered (Rpc.sent side (before l ++ of l past))) :
    (∃ x h', Step owner h x h' ∧ Orderly before past h x ∧ Proceeds x) ∨
      .handles l side.other ∈ h.tasks (owner l side.other) := by
  obtain ⟨parser, found⟩ := Option.isSome_iff_exists.mp
    (kept.waiting _ l side serial (top ▸ List.mem_cons_self))
  cases busy : (h.links l).current side.other with
  | none =>
    -- the answer is there
    have done := (kept.live l).finished lawful (started.fresh l) all busy found
    have turn : Turn h l (.waited side serial (parser.wait parser.ty)) (h.tasks (owner l side))
        outer := by
      rw [top]
      exact .wait
    refine .inl (kept.proceed (.wait parser.ty found done) turn ⟨trivial, rfl⟩ ?_)
    intro y link
    contradiction
  | some request =>
    have handled := Rpc.current_busy (started.fresh l) (kept.live l).run side.other
      (by rw [busy]; rfl)
    rw [← List.count_pos_iff, kept.handling]
    exact .inr (List.length_pos_iff.mpr handled)

/-- As long as a call has not returned there is a step to take, other than a request. -/
theorem Kept.moves [Finite P] (kept : Kept owner origin before past h) (lawful : tk.Lawful)
    (started : Started origin before start) (unquiet : ¬ Quiet before past h) :
    ∃ x h', Step owner h x h' ∧ Orderly before past h x ∧ Proceeds x := by
  by_cases handling : ∃ p l side outer, h.tasks p = .handles l side :: outer
  · obtain ⟨p, l, side, outer, top⟩ := handling
    have place : owner l side = p :=
      kept.owned p (.handles l side) (top ▸ List.mem_cons_self)
    subst place
    exact kept.handles lawful started top
  have idle (p : P) : polls (h.tasks p) = true := by
    cases stack : h.tasks p with
    | nil => rfl
    | cons top outer =>
      cases top with
      | waits => rfl
      | handles l side => exact absurd ⟨p, l, side, outer, stack⟩ handling
  by_cases given : ∃ l side, (h.links l).link.wire (Side.other side) ≠ []
  · obtain ⟨l, side, given⟩ := given
    exact kept.reads started idle given
  by_cases queued : ∃ l side, ((h.links l).link.ends side).conn.writeQueue ≠ []
  · obtain ⟨l, side, queue⟩ := queued
    exact kept.writes started idle queue
  -- nothing is under way
  have settled {l : L} {side : Side} (between : ((h.links l).link.ends side.other).stack = []) :
      Rpc.Settled side (h.links l) := by
    refine ⟨⟨?_, ?_, between⟩, ?_⟩
    · by_contra queue
      exact queued ⟨l, side, queue⟩
    · by_contra wire
      refine given ⟨l, side.other, ?_⟩
      rwa [Side.other_other]
    · rw [← Option.not_isSome_iff_eq_none]
      exact fun busy =>
        Rpc.current_busy (started.fresh l) (kept.live l).run side.other busy between
  have all (l : L) (side : Side) : Rpc.received side.other (before l ++ of l past) =
      numbered (Rpc.sent side (before l ++ of l past)) := by
    by_cases between : ((h.links l).link.ends side.other).stack = []
    · exact Rpc.settled_received (started.fresh l) (kept.live l).run (settled between)
    · exact (kept.silent started (kept.inside (idle _) between) side).1
  by_contra stuck
  have returned : ∀ p, h.tasks p = [] := by
    refine kept.dated.none_blocked ?_
    intro p t outer top
    cases t with
    | handles l side => exact absurd ⟨p, l, side, outer, top⟩ handling
    | waits l side serial =>
      have place : owner l side = p :=
        kept.owned p (.waits l side serial) (top ▸ List.mem_cons_self)
      subst place
      rcases kept.waits lawful started top (all l) with moves | handled
      · exact absurd moves stuck
      · exact ⟨owner l side.other, .handles l side.other, handled, rfl, rfl⟩
  refine unquiet ⟨returned, fun l => ?_⟩
  refine (kept.live l).atRest lawful (started.fresh l) fun side => settled ?_
  rw [← List.length_eq_zero_iff, ← kept.handling, returned]
  rfl

/-! Every step leaves less to do. -/

/-- What is left to do: the requests that may still be made, then the links, then the calls
that wait. -/
def rest [Fintype P] [Fintype L] (before : L → List (Rpc.Label tk)) (bound : Nat)
    (past : List (L × Rpc.Label tk)) (h : Network tk P L) : Nat × (Nat × Nat) × Nat :=
  (bound - calls past, (∑ l, (Rpc.rest (before l ++ of l past) (h.links l)).1,
    ∑ l, (Rpc.rest (before l ++ of l past) (h.links l)).2), ∑ p, (h.tasks p).length)

theorem waited_lessens [Fintype P] (before : L → List (Rpc.Label tk))
    (past : List (L × Rpc.Label tk)) {l : L} {k : Rpc tk} {side : Side} {serial : UInt32}
    {result : Waited tk} {stack : List (Task L)}
    (step : Rpc.Step (h.links l) (.waited side serial result) k)
    (turn : Turn h l (.waited side serial result) (h.tasks (owner l side)) stack) :
    (∀ l', Rpc.rest (before l' ++ of l' (past ++ [(l, .waited side serial result)]))
        (Function.update h.links l k l') = Rpc.rest (before l' ++ of l' past) (h.links l')) ∧
      ∑ p, (Function.update h.tasks (owner l side) stack p).length <
        ∑ p, (h.tasks p).length := by
  constructor
  · intro l'
    rw [of_append]
    by_cases here : l' = l
    · subst here
      rw [if_pos rfl, Function.update_self]
      cases step with
      | wait => simp [Rpc.rest, Rpc.made, Rpc.served, Rpc.requested, Rpc.handled,
          Rpc.Label.requested, Rpc.Label.handled]
    · rw [if_neg (Ne.symm here), List.append_nil, Function.update_of_ne here]
  · have fewer : stack.length < (h.tasks (owner l side)).length := by
      generalize h.tasks (owner l side) = tasks at turn
      cases turn
      exact Nat.lt_succ_self _
    refine Finset.sum_lt_sum (fun p _ => ?_) ⟨owner l side, Finset.mem_univ _, ?_⟩
    · by_cases here : p = owner l side
      · subst here
        rw [Function.update_self]
        exact Nat.le_of_lt fewer
      · rw [Function.update_of_ne here]
    · rwa [Function.update_self]

theorem Kept.lessens [Fintype P] [Fintype L] (kept : Kept owner origin before past h)
    (lawful : tk.Lawful) (started : Started origin before start) (step : Step owner h x h')
    (orderly : Orderly before past h x) (productive : Productive x) {bound : Nat}
    (few : calls (past ++ [x]) ≤ bound) :
    Prod.Lex (· < ·) (Prod.Lex (Prod.Lex (· < ·) (· < ·)) (· < ·))
      (rest before bound (past ++ [x]) h') (rest before bound past h) := by
  cases step with | @«at» l x k stack step turn =>
  have count := calls_append past (l, x)
  cases requests : x.requests with
  | true =>
    simp only [requests, if_true] at count
    apply Prod.Lex.left
    omega
  | false =>
    simp only [requests, Bool.false_eq_true, if_false, Nat.add_zero] at count
    unfold rest
    rw [count]
    apply Prod.Lex.right
    have advanced (advances : x.Advances) : Prod.Lex (· < ·) (· < ·)
        (∑ l', (Rpc.rest (before l' ++ of l' (past ++ [(l, x)]))
            (Function.update h.links l k l')).1,
          ∑ l', (Rpc.rest (before l' ++ of l' (past ++ [(l, x)]))
            (Function.update h.links l k l')).2)
        (∑ l', (Rpc.rest (before l' ++ of l' past) (h.links l')).1,
          ∑ l', (Rpc.rest (before l' ++ of l' past) (h.links l')).2) := by
      apply lex_sum l
      · rw [of_append, if_pos rfl, Function.update_self, ← List.append_assoc]
        exact Rpc.rest_lessens lawful (started.fresh l) (kept.live l) step
          (kept.peaceful lawful started step turn orderly.framed) advances
      · intro l' apart
        rw [of_append, if_neg (Ne.symm apart), List.append_nil, Function.update_of_ne apart]
    cases x with
    | moved side act => exact .left _ _ (advanced productive)
    | answered => exact .left _ _ (advanced trivial)
    | invoked | released => contradiction
    | waited side serial result =>
      obtain ⟨links, fewer⟩ := waited_lessens before past step turn
      simp only [links]
      exact .right _ fewer

def turn (h : Network tk P L) (l : L) :
    Rpc.Label tk → List (Task L) → Option (List (Task L))
  | .invoked side serial _ _, stack =>
    if h.runs stack then some (.waits l side serial :: stack) else none
  | .released _ _ _, stack => if h.runs stack then some stack else none
  | .waited side serial _, top :: outer =>
    if top = .waits l side serial then some outer else none
  | .answered side _ _ _ _, top :: outer =>
    if top = .handles l side then some (top :: outer) else none
  | .waited _ _ _, [] | .answered _ _ _ _ _, [] => none
  | .moved side act, stack =>
    match act, stack with
    | .handled dispatch, top :: outer =>
      if top = .handles l side then some (entered l side (.handled dispatch) ++ outer) else none
    | .handled _, [] => none
    | .refused _, stack => if h.runs stack then some stack else none
    | act, stack => if polls stack then some (entered l side act ++ stack) else none

omit [DecidableEq P] in
theorem turn_sound {h : Network tk P L} {l : L} {x : Rpc.Label tk} {stack stack' : List (Task L)}
    (turned : h.turn l x stack = some stack') : Turn h l x stack stack' := by
  cases x with
  | invoked side serial ty payload =>
    obtain ⟨running, same⟩ := Option.ite_none_right_eq_some.mp turned
    obtain rfl := Option.some.inj same
    exact .call running
  | released side serial payload =>
    obtain ⟨running, same⟩ := Option.ite_none_right_eq_some.mp turned
    obtain rfl := Option.some.inj same
    exact .release running
  | waited side serial result =>
    cases stack with
    | nil => contradiction
    | cons top outer =>
      obtain ⟨rfl, same⟩ := Option.ite_none_right_eq_some.mp turned
      obtain rfl := Option.some.inj same
      exact .wait
  | answered side asked payload outcome serial =>
    cases stack with
    | nil => contradiction
    | cons top outer =>
      obtain ⟨rfl, same⟩ := Option.ite_none_right_eq_some.mp turned
      obtain rfl := Option.some.inj same
      exact .answer
  | moved side act =>
    cases act with
    | handled dispatch =>
      cases stack with
      | nil => contradiction
      | cons top outer =>
        obtain ⟨rfl, same⟩ := Option.ite_none_right_eq_some.mp turned
        obtain rfl := Option.some.inj same
        exact .leave
    | refused data =>
      obtain ⟨running, same⟩ := Option.ite_none_right_eq_some.mp turned
      obtain rfl := Option.some.inj same
      exact .refuse running
    | sent | wrote | hungUp | read =>
      obtain ⟨idle, same⟩ := Option.ite_none_right_eq_some.mp turned
      obtain rfl := Option.some.inj same
      exact .poll idle (by simp) (by simp)

/-- What can happen on a link. -/
def perform (owner : L → Side → P) (h : Network tk P L) (event : L × Rpc.Event tk) :
    Option ((L × Rpc.Label tk) × Network tk P L) :=
  match (h.links event.1).perform event.2 with
  | some (x, k) =>
    (h.turn event.1 x (h.tasks (owner event.1 x.side))).map fun stack => ((event.1, x),
      ⟨Function.update h.links event.1 k, Function.update h.tasks (owner event.1 x.side) stack⟩)
  | none => none

theorem perform_step {event : L × Rpc.Event tk}
    (performed : h.perform owner event = some (x, h')) : Step owner h x h' := by
  unfold perform at performed
  split at performed
  · rename_i label k moved
    obtain ⟨stack, turned, same⟩ := Option.map_eq_some_iff.mp performed
    obtain ⟨rfl, rfl⟩ := Prod.mk.inj same
    exact .at (Rpc.perform_step moved) (turn_sound turned)
  · contradiction

/-! Three processes that call each other in a circle -/

instance {tk : Toolkit} (side : Side) (k : Rpc tk) : Decidable (Rpc.Settled side k) :=
  inferInstanceAs (Decidable ((_ ∧ _ ∧ _) ∧ _))

/-- A guard that can be evaluated. -/
def Sparse {P : Type} (before : L → List (Rpc.Label .plain)) (past : List (L × Rpc.Label .plain))
    (h : Network .plain P L) (x : L × Rpc.Label .plain) : Prop :=
  (∀ y ∈ x.2.link, Link.Framed y) ∧
    (x.2.requests = true → Rpc.Settled .connecting (h.links x.1) ∧
      Rpc.Settled .accepting (h.links x.1)) ∧
    Rpc.made (before x.1 ++ of x.1 past ++ [x.2]) < 2 ^ 32 ∧
    (∀ payload ∈ x.2.requested .connecting, payload = Rpc.call) ∧
    ∀ payload ∈ x.2.requested .accepting, payload = Rpc.call

instance {P : Type} (before : L → List (Rpc.Label .plain)) (past : List (L × Rpc.Label .plain))
    (h : Network .plain P L) (x : L × Rpc.Label .plain) : Decidable (Sparse before past h x) :=
  inferInstanceAs (Decidable (_ ∧ (_ → _ ∧ _) ∧ _ ∧ _ ∧ _))

theorem Sparse.orderly {P : Type} {before : L → List (Rpc.Label .plain)}
    {past : List (L × Rpc.Label .plain)} {h : Network .plain P L} {x : L × Rpc.Label .plain}
    (sparse : Sparse before past h x) : Orderly before past h x := by
  obtain ⟨framed, single, few, connecting, accepting⟩ := sparse
  refine ⟨framed, ?_, few, ?_⟩
  · rintro ⟨side, asks⟩
    have requests : x.2.requests = true := by
      obtain ⟨l, x⟩ := x
      cases x with
      | invoked | released => rfl
      | moved | answered | waited => exact absurd rfl asks
    exact Rpc.both (single requests).1 (single requests).2
  · intro side payload member
    obtain rfl : payload = Rpc.call := by
      cases side with
      | connecting => exact connecting payload member
      | accepting => exact accepting payload member
    exact Rpc.call_answerable

/-- The call that connects two sessions, and its answer. -/
def introduction : List (Rpc.Event .plain) :=
  [.invoke .connecting true Rpc.target ['m'] [], .move .connecting (.output 99),
    .move .accepting (.input (frame Rpc.call)), .answer .accepting (.ok (Rpc.number 7)),
    .move .accepting .returned, .move .accepting (.output 99),
    .move .connecting (.input (frame (answerPayload 0 (.ok (Rpc.number 7) : Outcome .plain)))),
    .move .connecting .returned]

def introduced : List (Rpc.Label .plain) × Rpc .plain :=
  play Rpc.perform Rpc.Brief [] Rpc.fresh introduction

theorem introduced_live : Rpc.Live Rpc.fresh introduced.1 introduced.2 where
  run := Rpc.played Rpc.fresh introduction
  registered := Rpc.both (by decide +kernel) (by decide +kernel)
  few := by decide +kernel
  answerable side payload member := by
    have asked : ∀ side, ∀ payload ∈ Rpc.requested side introduced.1, payload = Rpc.call :=
      Rpc.both (by decide +kernel) (by decide +kernel)
    exact asked side payload member ▸ Rpc.call_answerable

theorem introduced_settled : ∀ side, Rpc.Settled side introduced.2 :=
  Rpc.both (by decide +kernel) (by decide +kernel)

/-- Each process has a link to the next one. -/
def circle : Network .plain (Fin 3) (Fin 3) where
  links _ := introduced.2

def neighbour (l : Fin 3) : Side → Fin 3
  | .connecting => l
  | .accepting => l + 1

/-- Each method that is called calls the next process. -/
def round : List (Fin 3 × Rpc.Event .plain) :=
  [0, 1, 2].flatMap fun l => [(l, .invoke .connecting true Rpc.target ['m'] []),
    (l, .move .connecting (.output 99)), (l, .move .accepting (.input (frame Rpc.call)))]

theorem circle_started :
    Started (fun _ => Rpc.fresh) (fun _ => introduced.1) circle where
  fresh _ := Rpc.started
  live _ := introduced_live
  settled _ := introduced_settled
  tasks := rfl

end Network
open Network

/-- Any number of processes and links, whatever the methods call, also in a circle back to a
process that waits: from every state of a run, with a bound on the requests that are made, every
run comes to where each call has returned and each request was handled, and until then there is
a step to take. -/
theorem nested_calls_return {tk : Toolkit} {P L : Type} [Fintype P] [Fintype L] [DecidableEq P]
    [DecidableEq L] {owner : L → Side → P} {origin : L → Rpc tk}
    {before : L → List (Rpc.Label tk)} {start h : Network tk P L}
    {past : List (L × Rpc.Label tk)} (lawful : tk.Lawful)
    (started : Network.Started origin before start)
    (run : Guarded (Network.Step owner) (Orderly before) start past h) {bound : Nat}
    (few : calls past ≤ bound) :
    Inevitably (Network.Step owner)
      (fun past h x => Orderly before past h x ∧ Productive x ∧ calls (past ++ [x]) ≤ bound)
      (Quiet before) past h := by
  refine .of_measure (WellFounded.prod_lex wellFounded_lt
    (WellFounded.prod_lex (WellFounded.prod_lex wellFounded_lt wellFounded_lt) wellFounded_lt))
    (rest before bound)
    (I := fun past h => Kept owner origin before past h ∧ calls past ≤ bound) ?_ ?_ ?_
    ⟨Kept.run lawful started run, few⟩
  · rintro past h x h' ⟨kept, -⟩ step ⟨orderly, -, few⟩
    exact ⟨kept.next lawful started step orderly, few⟩
  · rintro past h x h' ⟨kept, -⟩ step ⟨orderly, productive, few⟩
    exact kept.lessens lawful started step orderly productive few
  · rintro past h ⟨kept, few⟩ unquiet
    obtain ⟨x, h', step, orderly, proceeds⟩ := kept.moves lawful started unquiet
    refine ⟨x, h', step, orderly, proceeds.1, ?_⟩
    rw [calls_append, proceeds.2]
    exact few

theorem nested_calls_return_circle :
    ∃ (past : List (Fin 3 × Rpc.Label .plain)) (h : Network .plain (Fin 3) (Fin 3)),
      Guarded (Network.Step neighbour) (Orderly fun _ => introduced.1) circle past h ∧
      h.tasks 0 = [.handles 2 .accepting, .waits 0 .connecting 1] ∧
      h.tasks 1 = [.waits 1 .connecting 1, .handles 0 .accepting] ∧
      h.tasks 2 = [.waits 2 .connecting 1, .handles 1 .accepting] ∧
      Inevitably (Network.Step neighbour)
        (fun past h x => Orderly (fun _ => introduced.1) past h x ∧ Productive x ∧
          calls (past ++ [x]) ≤ 10) (Quiet fun _ => introduced.1) past h := by
  have run := (play_guarded (Network.perform neighbour) (Sparse fun _ => introduced.1)
    Network.perform_step (.start (s := circle)) round).mono Sparse.orderly
  exact ⟨_, _, run, by decide +kernel, by decide +kernel, by decide +kernel,
    nested_calls_return Toolkit.plain_lawful circle_started run (by decide +kernel)⟩

/-- In every such run the steps are all there are: whatever the sockets of a process that polls can
bring is one. A frame that is handed over while a request is in hand is none in `Rpc`, but there is
nothing to read then. -/
theorem polled_steps {tk : Toolkit} {P L : Type} [DecidableEq P] [DecidableEq L]
    {owner : L → Side → P} {origin : L → Rpc tk} {before : L → List (Rpc.Label tk)}
    {start h : Network tk P L} {past : List (L × Rpc.Label tk)} (lawful : tk.Lawful)
    (started : Network.Started origin before start)
    (run : Guarded (Network.Step owner) (Orderly before) start past h) {l : L} {side : Side}
    {act : Connection.Label UInt8} {link : Link} (idle : polls (h.tasks (owner l side)) = true)
    (moved : Link.Step (h.links l).link (side, act) link) (polled : act.calls = false)
    (on : ∀ dispatch, act ≠ .handled dispatch) :
    ∃ h', Network.Step owner h (l, .moved side act) h' := by
  have kept := Kept.run lawful started run
  have turn : Turn h l (.moved side act) (h.tasks (owner l side))
      (entered l side act ++ h.tasks (owner l side)) := by
    refine .poll idle on ?_
    rintro data rfl
    contradiction
  cases busy : (h.links l).current side with
  | none =>
    obtain ⟨k, step⟩ := Rpc.poll_moves moved polled busy
    exact ⟨_, .at step turn⟩
  | some request =>
    have unread := kept.unread started (Option.isSome_iff_exists.mpr ⟨request, busy⟩) moved
    cases act with
    | sent | refused => contradiction
    | read => contradiction
    | handled dispatch => exact absurd rfl (on dispatch)
    | wrote | hungUp => exact ⟨_, .at (.event moved rfl rfl (by simp)) turn⟩

end PBus
