import PBus.Foundation.LALR.Driver
import Mathlib.Algebra.GroupWithZero.Nat

/-! Shift-reduce machines that come to an end, and how a run is followed. -/
namespace LALR
variable {T N V E K : Type} [DecidableEq T] [DecidableEq N]

/-- What a configuration weighs: its state, its symbols, and the tokens still to be read. -/
structure Weights (T N : Type) where
  state : Nat → Nat
  symbol : Symbol T N → Nat
  token : Nat

def Weights.sum (w : Weights T N) (xs : List (Symbol T N)) : Nat := (xs.map w.symbol).sum

def Weights.config (w : Weights T N) (c : Config T N V K) : Nat :=
  w.state (topState c.stack) + w.sum (c.stack.map Frame.symbol) + w.token * c.input.length

/-- Every action makes its configuration lighter, wherever a reduction leads. -/
def lighterAction (g : Grammar T N V E K) (table : Table T N) (w : Weights T N) (q : Nat)
    (a : Option T) : Action → Bool
  | .shift r => a.all fun t => w.state r + w.symbol (.terminal t) < w.state q + w.token
  | .reduce i => (g.rule i).all fun rule => (List.range table.length).all fun p =>
      (table.goto p rule.lhs).all fun r =>
        w.state r + w.symbol (.nonterminal rule.lhs) < w.state q + w.sum rule.rhs
  | .accept => true

def lighter (g : Grammar T N V E K) (table : Table T N) (w : Weights T N) : Bool :=
  (List.range table.length).all fun q => (table[q]?).all fun row =>
    row.actions.all fun (a, action) => lighterAction g table w q a action

theorem lighter_action {g : Grammar T N V E K} {table : Table T N} {w : Weights T N}
    (lighter' : lighter g table w = true) {q : Nat} {a : Option T} {action : Action}
    (found : table.action q a = some action) : lighterAction g table w q a action = true := by
  obtain ⟨row, here, entry⟩ := Option.bind_eq_some_iff.mp found
  have bound := (List.getElem?_eq_some_iff.mp here).1
  have checked := List.all_eq_true.mp lighter' q (List.mem_range.mpr bound)
  rw [here, Option.all_some] at checked
  exact List.all_eq_true.mp checked _ (mem_of_lookup entry)

omit [DecidableEq T] [DecidableEq N] in
theorem Weights.sum_append (w : Weights T N) (xs ys : List (Symbol T N)) :
    w.sum (xs ++ ys) = w.sum xs + w.sum ys := by
  simp [sum]

omit [DecidableEq T] [DecidableEq N] in
theorem Weights.sum_reverse (w : Weights T N) (xs : List (Symbol T N)) :
    w.sum xs.reverse = w.sum xs := by
  simp [sum, List.sum_reverse]

theorem step_lighter {g : Grammar T N V E K} {table : Table T N} {w : Weights T N}
    (safe' : safe g table = true) (lighter' : lighter g table w = true) {c c' : Config T N V K}
    (path : Path table c.stack) (went : step g table c = .goes c') :
    w.config c' < w.config c := by
  have does := step_does safe' path
  rw [went] at does
  cases does with
  | shift input act =>
    have checked := lighter_action lighter' act
    simp only [lighterAction, Option.all_some, decide_eq_true_eq] at checked
    simp only [Weights.config, topState, List.head?_cons, Option.elim_some, List.map_cons,
      Weights.sum, List.sum_cons, input, List.length_cons, Nat.mul_add] at checked ⊢
    omega
  | @reduce i rule top rest v q stack act found symbols made goto =>
    have checked := lighter_action lighter' act
    simp only [lighterAction, found, Option.all_some, List.all_eq_true] at checked
    obtain ⟨row, here, -⟩ := Option.bind_eq_some_iff.mp goto
    have bound := (List.getElem?_eq_some_iff.mp here).1
    have less := checked _ (List.mem_range.mpr bound)
    rw [goto, Option.all_some, decide_eq_true_eq, ← symbols, List.map_reverse,
      w.sum_reverse] at less
    have whole : w.sum (c.stack.map Frame.symbol) =
        w.sum (top.map Frame.symbol) + w.sum (rest.map Frame.symbol) := by
      rw [stack, List.map_append, w.sum_append]
    have pushed (f : Frame T N V) : w.sum ((f :: rest).map Frame.symbol) =
        w.symbol f.symbol + w.sum (rest.map Frame.symbol) := by simp [Weights.sum]
    simp only [Weights.config, whole, pushed, topState, List.head?_cons, Option.elim_some] at less ⊢
    omega

theorem run_ends {g : Grammar T N V E K} {table : Table T N} {w : Weights T N}
    (safe' : safe g table = true) (lighter' : lighter g table w = true) {word : List K}
    {fuel : Nat} {c : Config T N V K} (parsing : Parsing g table word c)
    (enough : w.config c < fuel) : ∃ result, run g table fuel c = some result := by
  induction fuel generalizing c with
  | zero => contradiction
  | succ fuel ih =>
    unfold run
    cases outcome : step g table c with
    | goes c' =>
      have less := step_lighter safe' lighter' parsing.path outcome
      exact ih (parsing_step safe' parsing outcome) (by omega)
    | ends result => exact ⟨result, rfl⟩

/-- The machine gets from one configuration to another. -/
inductive Goes (g : Grammar T N V E K) (table : Table T N) :
    Config T N V K → Config T N V K → Prop where
  | refl (c) : Goes g table c c
  | next : step g table c = .goes c' → Goes g table c' c'' → Goes g table c c''

theorem Goes.trans {g : Grammar T N V E K} {table : Table T N} {c c' c'' : Config T N V K}
    (first : Goes g table c c') (second : Goes g table c' c'') : Goes g table c c'' := by
  induction first with
  | refl => exact second
  | next went _ ih => exact .next went (ih second)

theorem Goes.shift {g : Grammar T N V E K} {table : Table T N} {stack : List (Frame T N V)}
    {token : K} {rest : List K} {q : Nat}
    (act : table.action (topState stack) (some (g.kind token)) = some (.shift q)) :
    Goes g table ⟨stack, token :: rest⟩
      ⟨⟨q, .terminal (g.kind token), g.value token⟩ :: stack, rest⟩ := by
  refine Goes.next ?_ (.refl _)
  unfold step
  rw [List.head?_cons, Option.map_some, act]

theorem Goes.reduce {g : Grammar T N V E K} {table : Table T N} {input : List K} {i q : Nat}
    {rule : Rule T N V E} {v : V} (top rest : List (Frame T N V)) (found : g.rule i = some rule)
    (length : top.length = rule.rhs.length)
    (act : table.action (topState (top ++ rest)) (input.head?.map g.kind) = some (.reduce i))
    (made : rule.action (top.reverse.map Frame.value) = .ok v)
    (goto : table.goto (topState rest) rule.lhs = some q) :
    Goes g table ⟨top ++ rest, input⟩ ⟨⟨q, .nonterminal rule.lhs, v⟩ :: rest, input⟩ := by
  have taken : (top ++ rest).take rule.rhs.length = top := by rw [← length, List.take_left]
  have dropped : (top ++ rest).drop rule.rhs.length = rest := by rw [← length, List.drop_left]
  refine Goes.next ?_ (.refl _)
  unfold step
  simp only [act, found, taken, dropped, made, goto]

theorem step_accept {g : Grammar T N V E K} {table : Table T N} {frame : Frame T N V}
    {stack : List (Frame T N V)} (act : table.action frame.state none = some .accept) :
    step g table ⟨frame :: stack, []⟩ = .ends (.ok frame.value) := by
  have act' : table.action (topState (frame :: stack)) (([] : List K).head?.map g.kind) =
      some .accept := act
  unfold step
  rw [act']

theorem Goes.result {g : Grammar T N V E K} {table : Table T N} {c c' : Config T N V K}
    {result result' : Except E V} {fuel : Nat} (goes : Goes g table c c')
    (ends : step g table c' = .ends result) (ran : run g table fuel c = some result') :
    result' = result := by
  induction goes generalizing fuel with
  | refl =>
    cases fuel with
    | zero => contradiction
    | succ fuel =>
      rw [run, ends] at ran
      exact (Option.some.inj ran).symm
  | next went _ ih =>
    cases fuel with
    | zero => contradiction
    | succ fuel =>
      rw [run, went] at ran
      exact ih ends ran

def start (word : List K) : Config T N V K := ⟨[], word⟩

omit [DecidableEq T] [DecidableEq N] in
theorem parsing_start (g : Grammar T N V E K) (table : Table T N) (word : List K) :
    Parsing g table word (start word) := ⟨trivial, [], rfl, .nil⟩

end LALR
