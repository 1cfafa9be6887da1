import PBus.Foundation.LALR.Table

/-! The shift-reduce machine over a table, with semantic actions. Whatever it accepts is derived
by the rules, with the value their actions make, if every reduction of the table finds the right
side of its rule on the stack; and it comes to an end if every step makes its configuration
lighter. -/
namespace LALR
variable {T N V E K : Type}

/-- A rule, and what it makes of the values of its right side. -/
structure Rule (T N V E : Type) where
  lhs : N
  rhs : List (Symbol T N)
  action : List V → Except E V

/-- Rules are numbered from 1. A token has a kind, by which it is parsed, and a value. -/
structure Grammar (T N V E K : Type) where
  rules : List (Rule T N V E)
  start : N
  kind : K → T
  value : K → V
  syntaxError : Option K → E

namespace Grammar

def productions (g : Grammar T N V E K) : List (Production T N) :=
  ⟨none, [.nonterminal g.start]⟩ :: g.rules.map fun r => ⟨some r.lhs, r.rhs⟩

def rule (g : Grammar T N V E K) : Nat → Option (Rule T N V E)
  | 0 => none
  | i + 1 => g.rules[i]?

end Grammar

/-- The rules derive a word from symbols, and their actions make these values. -/
inductive Derives (g : Grammar T N V E K) : List (Symbol T N) → List K → List V → Prop where
  | nil : Derives g [] [] []
  | terminal : Derives g xs ws vs →
      Derives g (.terminal (g.kind token) :: xs) (token :: ws) (g.value token :: vs)
  | nonterminal : rule ∈ g.rules → Derives g rule.rhs us args → rule.action args = .ok v →
      Derives g xs ws vs → Derives g (.nonterminal rule.lhs :: xs) (us ++ ws) (v :: vs)

namespace Derives
variable {g : Grammar T N V E K}

theorem length (h : Derives g xs ws vs) : xs.length = vs.length := by
  induction h with
  | nil => rfl
  | terminal _ ih | nonterminal _ _ _ _ _ ih => simp [ih]

theorem append (first : Derives g xs us as) (second : Derives g ys ws bs) :
    Derives g (xs ++ ys) (us ++ ws) (as ++ bs) := by
  induction first with
  | nil => exact second
  | terminal _ ih => exact .terminal ih
  | nonterminal member derived made _ _ ih =>
    rw [List.append_assoc]
    exact .nonterminal member derived made ih

theorem split {xs ys : List (Symbol T N)} {ws : List K} {vs : List V}
    (h : Derives g (xs ++ ys) ws vs) :
    ∃ us us' as bs, ws = us ++ us' ∧ vs = as ++ bs ∧ Derives g xs us as ∧ Derives g ys us' bs := by
  induction xs generalizing ws vs with
  | nil => exact ⟨[], ws, [], vs, rfl, rfl, .nil, h⟩
  | cons x xs ih =>
    cases h with
    | terminal rest =>
      obtain ⟨us, us', as, bs, rfl, rfl, first, second⟩ := ih rest
      exact ⟨_, us', _, bs, rfl, rfl, .terminal first, second⟩
    | nonterminal member derived made rest =>
      obtain ⟨us, us', as, bs, rfl, rfl, first, second⟩ := ih rest
      exact ⟨_, us', _, bs, (List.append_assoc _ _ _).symm, rfl,
        .nonterminal member derived made first, second⟩

end Derives

/-- The words and values of symbols, if those of a nonterminal are as some relation says. -/
def Meant (g : Grammar T N V E K) (means : N → List K → V → Prop) :
    List (Symbol T N) → List K → List V → Prop
  | [], ws, vs => ws = [] ∧ vs = []
  | .terminal t :: xs, ws, vs => ∃ token ws' vs', g.kind token = t ∧ ws = token :: ws' ∧
      vs = g.value token :: vs' ∧ Meant g means xs ws' vs'
  | .nonterminal n :: xs, ws, vs => ∃ us ws' v vs', means n us v ∧ ws = us ++ ws' ∧
      vs = v :: vs' ∧ Meant g means xs ws' vs'

theorem Derives.meant {g : Grammar T N V E K} {means : N → List K → V → Prop}
    (keeps : ∀ rule ∈ g.rules, ∀ us args v, Meant g means rule.rhs us args →
      rule.action args = .ok v → means rule.lhs us v)
    {xs : List (Symbol T N)} {ws : List K} {vs : List V} (derived : Derives g xs ws vs) :
    Meant g means xs ws vs := by
  induction derived with
  | nil => exact ⟨rfl, rfl⟩
  | terminal _ ih => exact ⟨_, _, _, rfl, rfl, rfl, ih⟩
  | nonterminal member _ made _ ihArgs ih =>
    exact ⟨_, _, _, _, keeps _ member _ _ _ ihArgs made, rfl, rfl, ih⟩

variable [DecidableEq T] [DecidableEq N]

namespace Table

def action (table : Table T N) (state : Nat) (ahead : Option T) : Option Action :=
  (table[state]?).bind fun row => row.actions.lookup ahead

def goto (table : Table T N) (state : Nat) (n : N) : Option Nat :=
  (table[state]?).bind fun row => row.gotos.lookup n

end Table

structure Frame (T N V : Type) where
  state : Nat
  symbol : Symbol T N
  value : V

structure Config (T N V K : Type) where
  stack : List (Frame T N V)
  input : List K

def topState (stack : List (Frame T N V)) : Nat := (stack.head?).elim 0 Frame.state

inductive Outcome (T N V E K : Type) where
  | goes (c : Config T N V K)
  | ends (result : Except E V)

/-- One step of the machine. -/
def step (g : Grammar T N V E K) (table : Table T N) (c : Config T N V K) : Outcome T N V E K :=
  match table.action (topState c.stack) (c.input.head?.map g.kind) with
  | none => .ends (.error (g.syntaxError c.input.head?))
  | some (.shift q) =>
    match c.input with
    | [] => .ends (.error (g.syntaxError none))
    | token :: rest => .goes ⟨⟨q, .terminal (g.kind token), g.value token⟩ :: c.stack, rest⟩
  | some (.reduce i) =>
    match g.rule i with
    | none => .ends (.error (g.syntaxError c.input.head?))
    | some rule =>
      let top := c.stack.take rule.rhs.length
      let rest := c.stack.drop rule.rhs.length
      match rule.action (top.reverse.map Frame.value) with
      | .error e => .ends (.error e)
      | .ok v =>
        match table.goto (topState rest) rule.lhs with
        | none => .ends (.error (g.syntaxError c.input.head?))
        | some q => .goes ⟨⟨q, .nonterminal rule.lhs, v⟩ :: rest, c.input⟩
  | some .accept =>
    match c.stack with
    | [] => .ends (.error (g.syntaxError c.input.head?))
    | frame :: _ => .ends (.ok frame.value)

/-- Run for so many steps; nothing if they do not suffice. -/
def run (g : Grammar T N V E K) (table : Table T N) : Nat → Config T N V K → Option (Except E V)
  | 0, _ => none
  | fuel + 1, c =>
    match step g table c with
    | .goes c' => run g table fuel c'
    | .ends result => some result

/-- The transitions of a table: source, symbol, target. -/
def edges (table : Table T N) : List (Nat × Symbol T N × Nat) :=
  (List.range table.length).flatMap fun p =>
    match table[p]? with
    | none => []
    | some row =>
      row.actions.filterMap (fun (a, action) =>
        match a, action with
        | some t, .shift q => some (p, .terminal t, q)
        | _, _ => none) ++
      row.gotos.map fun (n, q) => (p, .nonterminal n, q)

/-- On every way into a state these symbols were read last, the last one first. -/
def pops (es : List (Nat × Symbol T N × Nat)) : List (Symbol T N) → Nat → Bool
  | [], _ => true
  | x :: before, q => q ≠ 0 && es.all fun (p, y, q') => q' ≠ q || (y = x && pops es before p)

/-- An action of a state finds on the stack what it needs. -/
def safeAction (g : Grammar T N V E K) (es : List (Nat × Symbol T N × Nat)) (q : Nat)
    (a : Option T) : Action → Bool
  | .shift _ => a.isSome
  | .reduce i => (g.rule i).any fun rule => pops es rule.rhs.reverse q
  | .accept => a.isNone && pops es [.nonterminal g.start] q &&
      es.all fun (p, _, q') => q' ≠ q || p = 0

def safe (g : Grammar T N V E K) (table : Table T N) : Bool :=
  let es := edges table
  (es.all fun (_, _, q) => q ≠ 0) &&
  (List.range table.length).all fun q =>
    (table[q]?).all fun row => row.actions.all fun (a, action) => safeAction g es q a action

/-- Every frame was entered by a transition from the state below it. -/
def Path (table : Table T N) : List (Frame T N V) → Prop
  | [] => True
  | frame :: rest => (topState rest, frame.symbol, frame.state) ∈ edges table ∧ Path table rest

theorem mem_of_lookup {α β : Type} [BEq α] [LawfulBEq α] {l : List (α × β)} {k : α} {v : β}
    (found : l.lookup k = some v) : (k, v) ∈ l := by
  obtain ⟨before, behind, rfl, -⟩ := List.lookup_eq_some_iff.mp found
  exact List.mem_append_right _ List.mem_cons_self

section Edges
variable {table : Table T N} {p q : Nat}

omit [DecidableEq N] in
theorem shift_edge {t : T} (found : table.action p (some t) = some (.shift q)) :
    (p, .terminal t, q) ∈ edges table := by
  obtain ⟨row, here, entry⟩ := Option.bind_eq_some_iff.mp found
  refine List.mem_flatMap.mpr ⟨p, ?_, ?_⟩
  · exact List.mem_range.mpr (List.getElem?_eq_some_iff.mp here).1
  · rw [here]
    exact List.mem_append_left _
      (List.mem_filterMap.mpr ⟨(some t, .shift q), mem_of_lookup entry, rfl⟩)

omit [DecidableEq T] in
theorem goto_edge {n : N} (found : table.goto p n = some q) :
    (p, .nonterminal n, q) ∈ edges table := by
  obtain ⟨row, here, entry⟩ := Option.bind_eq_some_iff.mp found
  refine List.mem_flatMap.mpr ⟨p, ?_, ?_⟩
  · exact List.mem_range.mpr (List.getElem?_eq_some_iff.mp here).1
  · rw [here]
    exact List.mem_append_right _ (List.mem_map.mpr ⟨_, mem_of_lookup entry, rfl⟩)

theorem safe_action {g : Grammar T N V E K} (safe' : safe g table = true) {a : Option T}
    {action : Action} (found : table.action q a = some action) :
    safeAction g (edges table) q a action = true := by
  obtain ⟨row, here, entry⟩ := Option.bind_eq_some_iff.mp found
  have rows := (Bool.and_eq_true_iff.mp safe').2
  have bound := (List.getElem?_eq_some_iff.mp here).1
  have checked := List.all_eq_true.mp rows q (List.mem_range.mpr bound)
  rw [here, Option.all_some] at checked
  exact List.all_eq_true.mp checked _ (mem_of_lookup entry)

theorem safe_target {g : Grammar T N V E K} (safe' : safe g table = true)
    {x : Symbol T N} (edge : (p, x, q) ∈ edges table) : q ≠ 0 := by
  have targets := (Bool.and_eq_true_iff.mp safe').1
  simpa using List.all_eq_true.mp targets _ edge

/-- A pop that was checked on every way into the state finds its symbols. -/
theorem pops_sound {stack : List (Frame T N V)} {xs : List (Symbol T N)}
    (path : Path table stack) (checked : pops (edges table) xs (topState stack) = true) :
    (stack.take xs.length).map Frame.symbol = xs := by
  induction xs generalizing stack with
  | nil => rfl
  | cons x xs ih =>
    simp only [pops, Bool.and_eq_true, List.all_eq_true] at checked
    obtain ⟨nonzero, ways⟩ := checked
    cases stack with
    | nil => exact absurd nonzero (by simp [topState])
    | cons frame rest =>
      have way := ways _ path.1
      simp only [topState, List.head?_cons, Option.elim_some, ne_eq, not_true_eq_false,
        decide_false, Bool.false_or, Bool.and_eq_true, decide_eq_true_eq] at way
      simp only [List.length_cons, List.take_succ_cons, List.map_cons, way.1, ih path.2 way.2]

end Edges

omit [DecidableEq T] [DecidableEq N] in
theorem path_drop {table : Table T N} {stack : List (Frame T N V)} (path : Path table stack)
    (n : Nat) : Path table (stack.drop n) := by
  induction n generalizing stack with
  | zero => exact path
  | succ n ih =>
    cases stack with
    | nil => exact trivial
    | cons frame rest => exact ih path.2

/-- All a step of a safe table can do: shift, reduce the right side of a rule, accept the start
symbol at the end of the input, or throw. -/
inductive Does (g : Grammar T N V E K) (table : Table T N) (c : Config T N V K) :
    Outcome T N V E K → Prop where
  | shift {token : K} {rest : List K} {q : Nat} : c.input = token :: rest →
      table.action (topState c.stack) (some (g.kind token)) = some (.shift q) →
      Does g table c (.goes ⟨⟨q, .terminal (g.kind token), g.value token⟩ :: c.stack, rest⟩)
  | reduce {i : Nat} {rule : Rule T N V E} {top rest : List (Frame T N V)} {v : V} {q : Nat} :
      c.stack = top ++ rest → table.action (topState c.stack) (c.input.head?.map g.kind) =
        some (.reduce i) → g.rule i = some rule → top.reverse.map Frame.symbol = rule.rhs →
      rule.action (top.reverse.map Frame.value) = .ok v →
      table.goto (topState rest) rule.lhs = some q →
      Does g table c (.goes ⟨⟨q, .nonterminal rule.lhs, v⟩ :: rest, c.input⟩)
  | accept {frame : Frame T N V} : c.stack = [frame] → c.input = [] →
      frame.symbol = .nonterminal g.start → Does g table c (.ends (.ok frame.value))
  | error (e : E) : Does g table c (.ends (.error e))

theorem step_does {g : Grammar T N V E K} {table : Table T N} (safe' : safe g table = true)
    {c : Config T N V K} (path : Path table c.stack) : Does g table c (step g table c) := by
  unfold step
  split
  next => exact .error _
  next q act =>
    split
    next => exact .error _
    next token rest input => exact .shift input (by rwa [input] at act)
  next i act =>
    have checked := safe_action safe' act
    split
    next => exact .error _
    next rule found =>
      simp only [safeAction, found, Option.any_some] at checked
      have popped := pops_sound path checked
      rw [List.length_reverse] at popped
      simp only
      split
      next => exact .error _
      next v made =>
        split
        next => exact .error _
        next q went =>
          refine .reduce (List.take_append_drop _ _).symm act found ?_ made went
          rw [List.map_reverse, popped, List.reverse_reverse]
  next act =>
    have checked := safe_action safe' act
    simp only [safeAction, Bool.and_eq_true, Option.isNone_iff_eq_none] at checked
    obtain ⟨⟨input, popped⟩, bottom⟩ := checked
    have symbols := pops_sound path popped
    split
    next => exact .error _
    next frame rest stack =>
      rw [stack] at path symbols bottom
      have top : frame.symbol = .nonterminal g.start := by simpa using symbols
      have below : topState rest = 0 := by
        have ways := List.all_eq_true.mp bottom _ path.1
        simp only [topState, List.head?_cons, Option.elim_some, ne_eq, not_true_eq_false,
          decide_false, Bool.false_or] at ways
        exact of_decide_eq_true ways
      have empty : rest = [] := by
        cases rest with
        | nil => rfl
        | cons frame' rest =>
          exact absurd below (safe_target safe' path.2.1)
      have read : c.input = [] := by simpa using input
      exact .accept (by rw [stack, empty]) read top

/-- What the machine has read is derived by the symbols on its stack. -/
structure Parsing (g : Grammar T N V E K) (table : Table T N) (word : List K)
    (c : Config T N V K) : Prop where
  path : Path table c.stack
  derived : ∃ read, word = read ++ c.input ∧
    Derives g (c.stack.reverse.map Frame.symbol) read (c.stack.reverse.map Frame.value)

omit [DecidableEq T] [DecidableEq N] in
theorem rule_mem {g : Grammar T N V E K} {i : Nat} {rule : Rule T N V E}
    (found : g.rule i = some rule) : rule ∈ g.rules := by
  cases i with
  | zero => contradiction
  | succ i => exact List.mem_of_getElem? found

theorem parsing_step {g : Grammar T N V E K} {table : Table T N} (safe' : safe g table = true)
    {word : List K} {c c' : Config T N V K} (parsing : Parsing g table word c)
    (went : step g table c = .goes c') : Parsing g table word c' := by
  have does := step_does safe' parsing.path
  obtain ⟨read, rfl, derived⟩ := parsing.derived
  rw [went] at does
  cases does with
  | shift input act =>
    rename_i token rest q
    refine ⟨⟨shift_edge act, parsing.path⟩, read ++ [token], by rw [input]; simp, ?_⟩
    simp only [List.reverse_cons, List.map_append]
    exact derived.append (.terminal .nil)
  | @reduce i rule top rest v q stack act found symbols made goto =>
    rw [stack, List.reverse_append, List.map_append, List.map_append, symbols] at derived
    obtain ⟨us, us', as, bs, rfl, values, below, reduced⟩ := derived.split
    have lengths := below.length
    rw [List.length_map] at lengths
    obtain ⟨rfl, rfl⟩ := List.append_inj values (by rw [List.length_map, lengths])
    have path := path_drop parsing.path top.length
    rw [stack, List.drop_left] at path
    refine ⟨⟨goto_edge goto, path⟩, us ++ us', rfl, ?_⟩
    simp only [List.reverse_cons, List.map_append]
    have node := Derives.nonterminal (rule_mem found) reduced made .nil
    rw [List.append_nil] at node
    exact below.append node

/-- What is accepted is derived from the start, with the value that is returned. -/
theorem run_sound {g : Grammar T N V E K} {table : Table T N} (safe' : safe g table = true)
    {word : List K} {fuel : Nat} {c : Config T N V K} {v : V}
    (parsing : Parsing g table word c) (accepted : run g table fuel c = some (.ok v)) :
    Derives g [.nonterminal g.start] word [v] := by
  induction fuel generalizing c with
  | zero => contradiction
  | succ fuel ih =>
    unfold run at accepted
    have does := step_does safe' parsing.path
    cases outcome : step g table c with
    | goes c' =>
      rw [outcome] at accepted
      exact ih (parsing_step safe' parsing outcome) accepted
    | ends result =>
      rw [outcome] at accepted does
      obtain rfl := Option.some.inj accepted
      cases does with
      | accept stack input start =>
        obtain ⟨read, rfl, derived⟩ := parsing.derived
        rw [stack] at derived
        simp only [List.reverse_singleton, List.map_cons, List.map_nil, start] at derived
        rwa [input, List.append_nil]

end LALR
