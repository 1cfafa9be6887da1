import PBus.Foundation.Nesting
import PBus.Session.SingleCalls

/-! Processes joined by links. A method may call other processes, which may call further ones
before they answer; what is kept in every state of such a run. -/
namespace PBus
open Transition Connection Session

/-- A call that has not returned: of `OnIncomingData` for one side of a link, or of `Wait` for the
answer to a request. -/
inductive Task (L : Type) where
  | handles (link : L) (side : Side)
  | waits (link : L) (side : Side) (serial : UInt32)
  deriving DecidableEq

def Task.owner {P L : Type} (owner : L → Side → P) : Task L → P
  | .handles l side | .waits l side _ => owner l side

/-- `tasks p` are the calls inside each other in the process `p`, innermost first. -/
structure Network (tk : Toolkit) (P L : Type) where
  links : L → Rpc tk
  tasks : P → List (Task L) := fun _ => []

def Rpc.Label.side {tk : Toolkit} : Rpc.Label tk → Side
  | .invoked side _ _ _ | .released side _ _ | .moved side _ | .answered side _ _ _ _
  | .waited side _ _ => side

def Rpc.Label.requests {tk : Toolkit} : Rpc.Label tk → Bool
  | .invoked _ _ _ _ | .released _ _ _ => true
  | .moved _ _ | .answered _ _ _ _ _ | .waited _ _ _ => false

namespace Network
variable {tk : Toolkit} {P L : Type}

/-- The code of the process runs: outside of all calls, or in a method that was called. -/
def runs (h : Network tk P L) : List (Task L) → Bool
  | [] => true
  | .handles l side :: _ => ((h.links l).current side).isSome
  | .waits _ _ _ :: _ => false

/-- The process polls: outside of all calls, or in a `Wait`. -/
def polls : List (Task L) → Bool
  | [] | .waits _ _ _ :: _ => true
  | .handles _ _ :: _ => false

/-- The calls of `OnIncomingData` that a step makes. -/
def entered (l : L) (side : Side) (act : Connection.Label UInt8) : List (Task L) :=
  act.dispatched.map fun _ => .handles l side

/-- When a process may take a step of one of its sessions, and what calls it is in then. A proxy
waits for what it has asked for; a `Wait` polls, so that anything may arrive in it. -/
inductive Turn (h : Network tk P L) (l : L) : Rpc.Label tk → List (Task L) → List (Task L) → Prop
    where
  | call : h.runs stack = true →
      Turn h l (.invoked side serial ty payload) stack (.waits l side serial :: stack)
  | release : h.runs stack = true → Turn h l (.released side serial payload) stack stack
  | wait : Turn h l (.waited side serial result) (.waits l side serial :: outer) outer
  | answer : Turn h l (.answered side asked payload outcome serial) (.handles l side :: outer)
      (.handles l side :: outer)
  | leave : Turn h l (.moved side (.handled dispatch)) (.handles l side :: outer)
      (entered l side (.handled dispatch) ++ outer)
  | refuse : h.runs stack = true → Turn h l (.moved side (.refused data)) stack stack
  | poll : polls stack = true → (∀ dispatch, act ≠ .handled dispatch) →
      (∀ data, act ≠ .refused data) →
      Turn h l (.moved side act) stack (entered l side act ++ stack)

theorem entered_cases (l : L) (side : Side) (act : Connection.Label UInt8) :
    entered l side act = [] ∨ entered l side act = [.handles l side] := by
  unfold entered
  cases act with
  | read socket nested bytes dispatch | handled dispatch =>
    cases dispatch with
    | none => exact .inl rfl
    | some d => exact .inr rfl
  | sent | refused | wrote | hungUp => exact .inl rfl

theorem Turn.member {h : Network tk P L} {l : L} {x : Rpc.Label tk} {stack stack' : List (Task L)}
    (turn : Turn h l x stack stack') {t : Task L} (member : t ∈ stack') :
    t ∈ stack ∨ t = .handles l x.side ∨
      ∃ serial ty payload, x = .invoked x.side serial ty payload ∧ t = .waits l x.side serial := by
  have given {side : Side} {act : Connection.Label UInt8} {outer : List (Task L)}
      (member : t ∈ entered l side act ++ outer) : t = .handles l side ∨ t ∈ outer := by
    rcases List.mem_append.mp member with new | old
    · obtain ⟨d, -, rfl⟩ := List.mem_map.mp new
      exact .inl rfl
    · exact .inr old
  cases turn with
  | call =>
    rcases List.mem_cons.mp member with rfl | old
    · exact .inr (.inr ⟨_, _, _, rfl, rfl⟩)
    · exact .inl old
  | release | refuse | answer => exact .inl member
  | wait => exact .inl (List.mem_cons_of_mem _ member)
  | leave =>
    rcases given member with new | old
    · exact .inr (.inl new)
    · exact .inl (List.mem_cons_of_mem _ old)
  | poll =>
    rcases given member with new | old
    · exact .inr (.inl new)
    · exact .inl old

/-- A handler that is not the innermost call was so before, or has just made a call. -/
theorem Turn.within {h : Network tk P L} {l : L} {x : Rpc.Label tk} {stack outer : List (Task L)}
    {t : Task L} (turn : Turn h l x stack (t :: outer)) {l' : L} {side' : Side}
    (member : .handles l' side' ∈ outer) :
    (∃ t' outer', stack = t' :: outer' ∧ .handles l' side' ∈ outer') ∨
      ((h.links l').current side').isSome ∧ ∃ side, x.requested side ≠ [] := by
  have polled {stack : List (Task L)} (idle : polls stack = true)
      (member : .handles l' side' ∈ stack) :
      ∃ t' outer', stack = t' :: outer' ∧ .handles l' side' ∈ outer' := by
    cases stack with
    | nil => contradiction
    | cons top below =>
      refine ⟨top, below, rfl, ?_⟩
      rcases List.mem_cons.mp member with rfl | within
      · contradiction
      · exact within
  have tail {act : Connection.Label UInt8} {side : Side} {stack : List (Task L)}
      (same : entered l side act ++ stack = t :: outer) :
      stack = t :: outer ∨ outer = stack := by
    rcases entered_cases l side act with none | one
    · rw [none] at same
      exact .inl same
    · rw [one] at same
      exact .inr (List.cons.inj same).2.symm
  generalize same : t :: outer = stack' at turn
  cases turn with
  | @call stack side serial ty payload running =>
    obtain ⟨rfl, rfl⟩ := List.cons.inj same
    cases outer with
    | nil => contradiction
    | cons top below =>
      rcases List.mem_cons.mp member with rfl | inner
      · exact .inr ⟨running, side, by simp [Rpc.Label.requested]⟩
      · exact .inl ⟨top, below, rfl, inner⟩
  | release | refuse => exact .inl ⟨t, outer, same.symm, member⟩
  | wait => exact .inl ⟨_, _, rfl, same ▸ List.mem_cons_of_mem _ member⟩
  | answer =>
    obtain ⟨rfl, rfl⟩ := List.cons.inj same
    exact .inl ⟨_, _, rfl, member⟩
  | leave =>
    rcases tail same.symm with rfl | rfl
    · exact .inl ⟨_, _, rfl, List.mem_cons_of_mem _ member⟩
    · exact .inl ⟨_, _, rfl, member⟩
  | poll idle =>
    rcases tail same.symm with rfl | rfl
    · exact .inl ⟨_, _, rfl, member⟩
    · exact .inl (polled idle member)

/-- The handlers that a step lets return, and those it calls. -/
def ended (x : Rpc.Label tk) : Nat := x.link.elim 0 fun y => Rpc.ended y.2

def begun (x : Rpc.Label tk) : Nat := x.link.elim 0 fun y => y.2.dispatched.length

theorem link_count {k k' : Rpc tk} {x : Rpc.Label tk} (step : Rpc.Step k x k') (side : Side) :
    (k'.link.ends side).stack.length + (if side = x.side then ended x else 0) =
      (k.link.ends side).stack.length + if side = x.side then begun x else 0 := by
  obtain ⟨moves, stays⟩ := Rpc.step_link step
  cases link : x.link with
  | none => simp [stays link, ended, begun, link]
  | some y =>
    obtain ⟨mover, act⟩ := y
    obtain ⟨own, others⟩ := Rpc.link_step (moves _ link)
    have same : x.side = mover := by
      cases x with
      | waited => contradiction
      | _ =>
        obtain ⟨rfl, -⟩ := Prod.mk.inj (Option.some.inj link)
        rfl
    have count := Rpc.stack_count own
    rcases Side.eq_or_other side mover with rfl | rfl
    · simpa [ended, begun, link, same] using count
    · simp [same, others]

theorem current_other {k k' : Rpc tk} {x : Rpc.Label tk} (step : Rpc.Step k x k') {side : Side}
    (apart : side ≠ x.side) : k'.current side = k.current side := by
  cases step with
  | invoke | release | event | wait => rfl
  | answer | lost => exact Function.update_of_ne apart _ _
  | @dispatch link mover act d =>
    rcases Rpc.onIncomingData_current { k with link } mover d with same | busy
    · rw [same]
    · rw [busy]
      exact Function.update_of_ne apart _ _

theorem current_kept {k k' : Rpc tk} {x : Rpc.Label tk} (step : Rpc.Step k x k') {side : Side}
    (unanswered : ∀ asked payload outcome serial, x ≠ .answered side asked payload outcome serial)
    (taken : ∀ mover data, x ≠ .moved mover (.refused data)) (busy : (k.current side).isSome) :
    (k'.current side).isSome := by
  by_cases own : side = x.side
  swap
  · rwa [current_other step own]
  cases step with
  | invoke | release | event | wait => exact busy
  | answer =>
    subst own
    exact absurd rfl (unanswered _ _ _ _)
  | lost => exact absurd rfl (taken _ _)
  | dispatch moved gives idle =>
    subst own
    simp [idle] at busy

variable [DecidableEq L] {owner : L → Side → P} {origin : L → Rpc tk}
  {before : L → List (Rpc.Label tk)} {start h h' : Network tk P L}
  {past : List (L × Rpc.Label tk)} {x : L × Rpc.Label tk}

/-- The steps. `owner l side` is the process that has the session on that side of the link. Those
of `Rpc` have no frame handed over while a request is in hand, which a `Wait` of its method could
bring about in the source: `polled_steps` shows that none is left out. -/
inductive Step [DecidableEq P] (owner : L → Side → P) :
    Network tk P L → L × Rpc.Label tk → Network tk P L → Prop where
  | at {h : Network tk P L} {l : L} {x : Rpc.Label tk} {k : Rpc tk} {stack : List (Task L)} :
      Rpc.Step (h.links l) x k → Turn h l x (h.tasks (owner l x.side)) stack →
      Step owner h (l, x)
        ⟨Function.update h.links l k, Function.update h.tasks (owner l x.side) stack⟩

/-- The part of a history that is one link's. -/
def of (l : L) (hist : List (L × Rpc.Label tk)) : List (Rpc.Label tk) :=
  hist.filterMap fun step => if step.1 = l then some step.2 else none

theorem of_append (l : L) (past : List (L × Rpc.Label tk)) (x : L × Rpc.Label tk) :
    of l (past ++ [x]) = of l past ++ if x.1 = l then [x.2] else [] :=
  History.party_append l x.1 past x.2

/-- Nobody hangs up, the requests are few and can be answered, and none is made on a link on
which something is under way. -/
structure Orderly (before : L → List (Rpc.Label tk)) (past : List (L × Rpc.Label tk))
    (h : Network tk P L) (x : L × Rpc.Label tk) : Prop where
  framed : ∀ y ∈ x.2.link, Link.Framed y
  single : (∃ side, x.2.requested side ≠ []) → ∀ side, Rpc.Settled side (h.links x.1)
  few : Rpc.made (before x.1 ++ of x.1 past ++ [x.2]) < 2 ^ 32
  answerable : ∀ side, ∀ payload ∈ x.2.requested side, Rpc.Answerable tk payload

/-- Sessions that are connected, with nothing under way. -/
structure Started (origin : L → Rpc tk) (before : L → List (Rpc.Label tk))
    (start : Network tk P L) : Prop where
  fresh : ∀ l, Rpc.Started (origin l)
  live : ∀ l, Rpc.Live (origin l) (before l) (start.links l)
  settled : ∀ l side, Rpc.Settled side (start.links l)
  tasks : start.tasks = fun _ => []

/-- A `Wait` for an answer waits for the call of `OnIncomingData` that leads to it. -/
def WaitsFor : Task L → Task L → Prop
  | .waits l side _, .handles l' side' => l' = l ∧ side' = side.other
  | _, _ => False

/-- What is so in every state: no link has more than one request under way, the calls of
`OnIncomingData` of each connection are those of its process, all but the innermost owe an
answer, and a `Wait` began before the call of `OnIncomingData` it waits for. -/
structure Kept (owner : L → Side → P) (origin : L → Rpc tk) (before : L → List (Rpc.Label tk))
    (past : List (L × Rpc.Label tk)) (h : Network tk P L) : Prop where
  live : ∀ l, Rpc.Live (origin l) (before l ++ of l past) (h.links l)
  alone : ∀ l, Rpc.Alone (before l ++ of l past) (h.links l)
  owned : ∀ p, ∀ t ∈ h.tasks p, t.owner owner = p
  handling : ∀ l side, (h.tasks (owner l side)).count (.handles l side) =
    ((h.links l).link.ends side).stack.length
  owing : ∀ p t outer, h.tasks p = t :: outer → ∀ l side, .handles l side ∈ outer →
    ((h.links l).current side).isSome
  waiting : ∀ p l side serial, .waits l side serial ∈ h.tasks p →
    ((h.links l).requests side serial).isSome
  dated : Nesting.Dated WaitsFor h.tasks

theorem Turn.count {h : Network tk P L} {l : L} {x : Rpc.Label tk} {stack stack' : List (Task L)}
    (turn : Turn h l x stack stack') (l' : L) (side' : Side) :
    stack'.count (.handles l' side') + (if l' = l ∧ side' = x.side then ended x else 0) =
      stack.count (.handles l' side') + if l' = l ∧ side' = x.side then begun x else 0 := by
  have same (side : Side) :
      ((Task.handles l side : Task L) == .handles l' side') = true ↔ l' = l ∧ side' = side := by
    rw [beq_iff_eq, Task.handles.injEq]
    exact and_congr eq_comm eq_comm
  have new (act : Connection.Label UInt8) (side : Side) :
      (entered l side act).count (.handles l' side') =
        if l' = l ∧ side' = side then act.dispatched.length else 0 := by
    unfold entered
    rw [List.map_const', List.count_replicate]
    simp only [same]
  cases turn with
  | call | release | refuse | wait | answer =>
    simp [ended, begun, Rpc.Label.link, Rpc.ended, Label.dispatched, Rpc.Label.side]
  | @leave side dispatch outer =>
    change _ + (if l' = l ∧ side' = side then 1 else 0) =
      _ + if l' = l ∧ side' = side then (Label.handled dispatch).dispatched.length else 0
    rw [List.count_append, new, List.count_cons]
    simp only [same]
    omega
  | @poll stack act side idle on taken =>
    have none : Rpc.ended act = 0 := by
      cases act with
      | handled dispatch => exact absurd rfl (on dispatch)
      | _ => rfl
    change _ + (if l' = l ∧ side' = side then Rpc.ended act else 0) =
      _ + if l' = l ∧ side' = side then act.dispatched.length else 0
    rw [List.count_append, new, none, ite_self, Nat.add_zero, Nat.add_comm]

theorem Kept.silent (kept : Kept owner origin before past h) (started : Started origin before start)
    {l : L} {side : Side} (busy : ((h.links l).current side).isSome) (s : Side) :
    Rpc.received s.other (before l ++ of l past) =
        numbered (Rpc.sent s (before l ++ of l past)) ∧ (h.links l).link.wire s = [] := by
  have run := (kept.live l).run
  have fresh := started.fresh l
  exact Rpc.all_received fresh run ((kept.alone l).all fresh run busy s)

theorem Kept.unread (kept : Kept owner origin before past h) (started : Started origin before start)
    {l : L} {side s : Side} {act : Connection.Label UInt8} {link : Link}
    (busy : ((h.links l).current side).isSome)
    (moved : Link.Step (h.links l).link (s, act) link) : act.inputSocket = none := by
  obtain ⟨own, taken⟩ := moved
  cases own with
  | read up registered given =>
    rw [(kept.silent started busy s.other).2] at taken
    exact absurd (List.append_eq_nil_iff.mp taken.symm).1 given
  | sent | refused | wrote | hungUp | handled => rfl

/-- A process that polls inside a handler owes the answer: it is in a `Wait` of the method. -/
theorem Kept.inside (kept : Kept owner origin before past h) {l : L} {side : Side}
    (idle : polls (h.tasks (owner l side)) = true)
    (busy : ((h.links l).link.ends side).stack ≠ []) : ((h.links l).current side).isSome := by
  have member : .handles l side ∈ h.tasks (owner l side) := by
    rw [← List.count_pos_iff, kept.handling]
    exact List.length_pos_iff.mpr busy
  cases stack : h.tasks (owner l side) with
  | nil =>
    rw [stack] at member
    contradiction
  | cons top outer =>
    rw [stack] at member idle
    rcases List.mem_cons.mp member with rfl | within
    · contradiction
    · exact kept.owing _ _ _ stack l side within

/-- No input comes on a connection while one of its frames is handled. -/
theorem Kept.unnested (kept : Kept owner origin before past h)
    (started : Started origin before start) {l : L} {x : Rpc.Label tk} {k : Rpc tk}
    {stack : List (Task L)} (step : Rpc.Step (h.links l) x k)
    (turn : Turn h l x (h.tasks (owner l x.side)) stack) :
    ∀ y ∈ x.link, y.2.nestedInput = false := by
  intro y link
  have moved := (Rpc.step_link step).1 y link
  generalize mine : h.tasks (owner l x.side) = tasks at turn
  cases turn with
  | call | release | answer => cases link; rfl
  | wait => contradiction
  | leave | refuse => cases link; rfl
  | @poll stack act side idle =>
    cases link
    by_contra nested
    rw [Bool.not_eq_false] at nested
    have unread (owes : ((h.links l).current side).isSome) := kept.unread started owes moved
    generalize k.link = link' at moved
    obtain ⟨own, -⟩ := moved
    cases own with
    | read =>
      have busy : ((h.links l).link.ends side).stack ≠ [] := by
        simpa [Connection.Label.nestedInput] using nested
      have none := unread (kept.inside (by rwa [← mine] at idle) busy)
      contradiction
    | _ => contradiction

theorem Kept.peaceful (kept : Kept owner origin before past h) (lawful : tk.Lawful)
    (started : Started origin before start) {l : L} {x : Rpc.Label tk} {k : Rpc tk}
    {stack : List (Task L)} (step : Rpc.Step (h.links l) x k)
    (turn : Turn h l x (h.tasks (owner l x.side)) stack)
    (framed : ∀ y ∈ x.link, Link.Framed y) :
    Rpc.Peaceful (before l ++ of l past) (h.links l) x := by
  have live := kept.live l
  apply live.peaceful lawful (started.fresh l)
  intro y link
  exact (framed y link).calm (kept.unnested started step turn y link)

theorem Kept.once (kept : Kept owner origin before past h) {l : L} (fresh : Rpc.Started (origin l))
    {side : Side} {outer : List (Task L)}
    (top : h.tasks (owner l side) = .handles l side :: outer) :
    .handles l side ∉ outer := by
  intro member
  have single := Rpc.stack_single fresh (kept.live l).run side
  rw [← kept.handling, top, List.count_cons_self] at single
  have twice := List.count_pos_iff.mpr member
  omega

theorem Kept.link (kept : Kept owner origin before past h) (lawful : tk.Lawful)
    (started : Started origin before start) {l : L} {x : Rpc.Label tk} {k : Rpc tk}
    {stack : List (Task L)} (step : Rpc.Step (h.links l) x k)
    (turn : Turn h l x (h.tasks (owner l x.side)) stack)
    (orderly : Orderly before past h (l, x)) :
    Rpc.Live (origin l) (before l ++ of l past ++ [x]) k ∧
      Rpc.Alone (before l ++ of l past ++ [x]) k :=
  have peaceful := kept.peaceful lawful started step turn orderly.framed
  ⟨(kept.live l).snoc step peaceful orderly.few orderly.answerable,
    (kept.alone l).next (started.fresh l) (kept.live l).run step orderly.single⟩

theorem Kept.registered (kept : Kept owner origin before past h) {l : L} {x : Rpc.Label tk}
    {k : Rpc tk} (step : Rpc.Step (h.links l) x k) (side : Side) (data : List UInt8) :
    x ≠ .moved side (.refused data) := by
  rintro rfl
  have own := (Rpc.link_step ((Rpc.step_link step).1 _ rfl)).1
  exact (Rpc.registered_step own (by simp) ((kept.live l).registered side)).1 data rfl

theorem Kept.next [DecidableEq P] (kept : Kept owner origin before past h) (lawful : tk.Lawful)
    (started : Started origin before start) (step : Step owner h x h')
    (orderly : Orderly before past h x) : Kept owner origin before (past ++ [x]) h' := by
  cases step with | @«at» l x k stack step turn =>
  obtain ⟨live, alone⟩ := kept.link lawful started step turn orderly
  have refused := kept.registered step
  have history (l' : L) : before l' ++ of l' (past ++ [(l, x)]) =
      before l' ++ of l' past ++ if l = l' then [x] else [] := by
    rw [of_append, List.append_assoc]
  have elsewhere {l' : L} {side : Side} (apart : owner l' side ≠ owner l x.side) :
      l' = l → side ≠ x.side := by
    rintro rfl rfl
    exact apart rfl
  constructor
  case live =>
    intro l'
    rw [history]
    by_cases here : l = l'
    · subst here
      simpa using live
    · simpa [here, Function.update_of_ne (Ne.symm here)] using kept.live l'
  case alone =>
    intro l'
    rw [history]
    by_cases here : l = l'
    · subst here
      simpa using alone
    · simpa [here, Function.update_of_ne (Ne.symm here)] using kept.alone l'
  case owned =>
    intro p t member
    dsimp only at member
    by_cases here : p = owner l x.side
    · subst here
      rw [Function.update_self] at member
      rcases turn.member member with old | rfl | ⟨serial, ty, payload, -, rfl⟩
      · exact kept.owned _ t old
      · rfl
      · rfl
    · rw [Function.update_of_ne here] at member
      exact kept.owned p t member
  case handling =>
    intro l' side
    have before := kept.handling l' side
    have count := turn.count l' side
    by_cases there : l' = l
    · subst there
      have link := link_count step side
      dsimp only
      rw [Function.update_self]
      by_cases here : owner l' side = owner l' x.side
      · rw [here] at before ⊢
        rw [Function.update_self]
        by_cases own : side = x.side
        · simp only [own, true_and, if_true] at count link before ⊢
          omega
        · simp only [own, and_false, if_false] at count link
          omega
      · rw [Function.update_of_ne here]
        have own := elsewhere here rfl
        simp only [own, if_false] at link
        omega
    · simp only [there, false_and, if_false, Nat.add_zero] at count
      dsimp only
      rw [Function.update_of_ne there]
      by_cases here : owner l' side = owner l x.side
      · rw [here] at before ⊢
        rw [Function.update_self, count, before]
      · rw [Function.update_of_ne here, before]
  case owing =>
    intro p t outer top l' side member
    dsimp only at top ⊢
    have stays (busy : ((h.links l').current side).isSome)
        (unanswered : l' = l → ∀ asked payload outcome serial,
          x ≠ .answered side asked payload outcome serial) :
        ((Function.update h.links l k l').current side).isSome := by
      by_cases there : l' = l
      · subst there
        rw [Function.update_self]
        exact current_kept step (unanswered rfl) refused busy
      · rwa [Function.update_of_ne there]
    by_cases here : p = owner l x.side
    · subst here
      rw [Function.update_self] at top
      subst top
      rcases turn.within member with ⟨t', outer', old, within⟩ | ⟨busy, side', asks⟩
      · apply stays (kept.owing _ _ _ old l' side within)
        rintro rfl asked payload outcome serial rfl
        -- the handler that answers is the innermost call
        change Turn h l' _ (h.tasks (owner l' side)) _ at turn
        generalize mine : h.tasks (owner l' side) = tasks at turn
        cases turn
        exact kept.once (started.fresh l') mine member
      · apply stays busy
        rintro rfl asked payload outcome serial rfl
        exact asks rfl
    · rw [Function.update_of_ne here] at top
      have own := kept.owned p (.handles l' side) (top ▸ List.mem_cons_of_mem _ member)
      apply stays (kept.owing p t outer top l' side member)
      rintro rfl asked payload outcome serial rfl
      exact here own.symm
  case waiting =>
    intro p l' side serial member
    dsimp only at member ⊢
    have stays (entry : ((h.links l').requests side serial).isSome) :
        ((Function.update h.links l k l').requests side serial).isSome := by
      by_cases there : l' = l
      · subst there
        rw [Function.update_self]
        exact Rpc.entry_kept step entry
      · rwa [Function.update_of_ne there]
    by_cases here : p = owner l x.side
    · subst here
      rw [Function.update_self] at member
      rcases turn.member member with old | same | ⟨serial', ty, payload, asked, same⟩
      · exact stays (kept.waiting _ l' side serial old)
      · contradiction
      · obtain ⟨rfl, rfl, rfl⟩ := Task.waits.inj same
        rw [Function.update_self]
        rw [asked] at step
        cases step with
        | invoke => simp
    · rw [Function.update_of_ne here] at member
      exact stays (kept.waiting p l' side serial member)
  case dated =>
    have free (side : Side) (q : P) (t' : Task L) : ¬ WaitsFor (.handles l side) t' := id
    have enters (side : Side) (act : Connection.Label UInt8) (tasks : P → List (Task L)) (p : P)
        (dated : Nesting.Dated WaitsFor tasks) : Nesting.Dated WaitsFor
          (Function.update tasks p (entered l side act ++ tasks p)) := by
      rcases entered_cases l side act with none | one
      · rw [none, List.nil_append, Function.update_eq_self]
        exact dated
      · rw [one]
        exact dated.push (free side p _) fun q t' _ => free side q t'
    have dated := kept.dated
    generalize mine : h.tasks (owner l x.side) = tasks at turn
    cases turn with
    | release | refuse | answer =>
      rw [← mine, Function.update_eq_self]
      exact dated
    | wait => exact dated.pop mine
    | @leave side dispatch outer =>
      change h.tasks (owner l side) = _ at mine
      have popped := enters side (.handled dispatch) _ (owner l side) (dated.pop mine)
      rwa [Function.update_self, Function.update_idem] at popped
    | @poll _ act side =>
      rw [← mine]
      exact enters side act _ (owner l side) dated
    | @call _ side serial ty payload =>
      rw [← mine]
      refine dated.push id fun q t' member waits => ?_
      cases t' with
      | waits => contradiction
      | handles l' side' =>
        -- nothing is being handled on the other side
        obtain ⟨rfl, rfl⟩ := waits
        obtain rfl := kept.owned q _ member
        have settled := orderly.single ⟨side, by simp [Rpc.Label.requested]⟩ side
        have count := kept.handling l' side.other
        rw [settled.1.2.2, List.length_nil, List.count_eq_zero] at count
        exact count member

end Network
end PBus
