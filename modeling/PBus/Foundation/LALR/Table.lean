import Mathlib.Data.List.Dedup

/-! LALR(1) tables: the automaton of LR(0) items, the lookaheads by the relations of DeRemer and
Pennello, and actions that prefer a shift to a reduction and an earlier rule to a later one. -/
namespace LALR

inductive Symbol (T N : Type) where
  | terminal (t : T)
  | nonterminal (n : N)
  deriving DecidableEq, Repr

/-- The left and the right side of a rule. Rule 0 has no left side: it leads to the start. -/
structure Production (T N : Type) where
  lhs : Option N
  rhs : List (Symbol T N)

/-- A rule and how much of its right side has been read. -/
abbrev Item := Nat × Nat

inductive Action where
  | shift (state : Nat)
  | reduce (rule : Nat)
  | accept
  deriving DecidableEq, Repr

/-- One state of a table: what to do with a lookahead, `none` being the end of the input, and
where to go behind a nonterminal. -/
structure Row (T N : Type) where
  actions : List (Option T × Action)
  gotos : List (N × Nat)
  deriving DecidableEq, Repr

abbrev Table (T N : Type) := List (Row T N)

section Construction
variable {T N : Type} [DecidableEq T] [DecidableEq N] (ps : List (Production T N))

def rhsOf (i : Nat) : List (Symbol T N) := (ps[i]?).elim [] Production.rhs

/-- The symbol behind the dot. -/
def next (item : Item) : Option (Symbol T N) := (rhsOf ps item.1)[item.2]?

def rulesOf (n : N) : List Nat :=
  (List.range ps.length).filter fun i => (ps[i]?).any fun p => p.lhs = some n

def nonterminalOf : Symbol T N → Option N
  | .nonterminal n => some n
  | .terminal _ => none

def terminalOf : Symbol T N → Option T
  | .terminal t => some t
  | .nonterminal _ => none

/-- The nonterminals that items with these behind their dots lead to, in so many rounds. -/
def expand : Nat → List N → List N
  | 0, ns => ns
  | rounds + 1, ns =>
    let found := ns.flatMap fun n =>
      (rulesOf ps n).filterMap fun i => (next ps (i, 0)).bind nonterminalOf
    match (found.filter (· ∉ ns)).dedup with
    | [] => ns
    | more => expand rounds (ns ++ more)

/-- All items, in one order for every state. -/
def items : List Item :=
  (List.range ps.length).flatMap fun i =>
    (List.range ((rhsOf ps i).length + 1)).map fun dot => (i, dot)

/-- The items of a state, from those that have read something. -/
def closure (kernel : List Item) : List Item :=
  let ns := expand ps ps.length ((kernel.filterMap fun i => (next ps i).bind nonterminalOf).dedup)
  (items ps).filter fun i =>
    i ∈ kernel ∨ i.2 = 0 ∧ (ps[i.1]?).any fun p => p.lhs.any fun n => n ∈ ns

/-- Where a state leads: each symbol behind a dot, and the items that have read it. -/
def successors (kernel : List Item) : List (Symbol T N × List Item) :=
  let closed := closure ps kernel
  (closed.filterMap (next ps)).dedup.map fun x =>
    (x, (closed.filter fun i => next ps i = some x).map fun i => (i.1, i.2 + 1))

/-- The states of the automaton, each as the items that have read something. -/
def kernels : Nat → Nat → List (List Item) → List (List Item)
  | 0, _, states => states
  | fuel + 1, i, states =>
    match states[i]? with
    | none => states
    | some kernel =>
      kernels fuel (i + 1) (states ++ ((successors ps kernel).map Prod.snd).filter (· ∉ states))

def transitions (states : List (List Item)) : List (List (Symbol T N × Nat)) :=
  states.map fun kernel => (successors ps kernel).map fun (x, k) => (x, states.idxOf k)

/-- The automaton: what each state has read, and its transitions. -/
structure Automaton (T N : Type) where
  kernels : List (List Item)
  moves : List (List (Symbol T N × Nat))

def automaton (fuel : Nat) : Automaton T N :=
  let states := kernels ps fuel 0 [[(0, 0)]]
  ⟨states, transitions ps states⟩

/-- Nonterminals that derive the empty word, as found in so many rounds. -/
def nullable : Nat → List N
  | 0 => []
  | rounds + 1 =>
    let known := nullable rounds
    (ps.filterMap fun p =>
      if p.rhs.all fun x => (nonterminalOf x).any fun n => n ∈ known then p.lhs else none).dedup

variable (a : Automaton T N)

def Automaton.move (state : Nat) (x : Symbol T N) : Option Nat :=
  ((a.moves[state]?).getD []).lookup x

def Automaton.walk (state : Nat) (xs : List (Symbol T N)) : Option Nat :=
  xs.foldl (fun state x => state.bind fun q => a.move q x) (some state)

def Automaton.gotos (state : Nat) : List (N × Nat) :=
  ((a.moves[state]?).getD []).filterMap fun (x, q) => (nonterminalOf x).map fun n => (n, q)

def Automaton.reads (state : Nat) : List T :=
  ((a.moves[state]?).getD []).filterMap fun (x, _) => terminalOf x

/-- A transition with a nonterminal, by its source. -/
abbrev Transition (N : Type) := Nat × N

def Automaton.nonterminalTransitions : List (Transition N) :=
  (List.range a.moves.length).flatMap fun q => (a.gotos q).map fun (n, _) => (q, n)

/-- `reads`: a nullable nonterminal comes next. -/
def readsNullable (empty : List N) (t : Transition N) : List (Transition N) :=
  match a.move t.1 (.nonterminal t.2) with
  | none => []
  | some r => ((a.gotos r).filter fun (n, _) => n ∈ empty).map fun (n, _) => (r, n)

/-- `includes`: the first transition comes last in a right side, but for nullable symbols, where
the second one stands for the left side. -/
def includes (empty : List N) : List (Transition N × Transition N) :=
  a.nonterminalTransitions.flatMap fun (source, n) =>
    (rulesOf ps n).flatMap fun i =>
      let rhs : List (Symbol T N) := rhsOf ps i
      (List.range rhs.length).filterMap fun j => do
        let last ← rhs[j]? >>= nonterminalOf
        let q ← a.walk source (rhs.take j)
        if (rhs.drop (j + 1)).all fun x => (nonterminalOf x).any fun n => n ∈ empty then
          some ((q, last), (source, n))
        else none

/-- What can follow some transitions. -/
abbrev Follow (T N : Type) := List (Transition N × List (Option T))

/-- What follows at once: the terminals that can be read behind the nonterminal, and the end
behind the start. -/
def followDirectly : Follow T N :=
  let start := (rhsOf ps 0).filterMap nonterminalOf
  a.nonterminalTransitions.map fun t =>
    (t, ((a.move t.1 (.nonterminal t.2)).elim [] fun r => (a.reads r).map some) ++
      if t.1 = 0 ∧ t.2 ∈ start then [none] else [])

/-- What follows a transition, in so many rounds: what follows those it is related to, too. -/
def follow (related : Transition N → List (Transition N)) : Nat → Follow T N → Follow T N
  | 0, known => known
  | rounds + 1, known =>
    let more := known.map fun (t, follows) =>
      let others := (related t).flatMap fun t' => (known.lookup t').getD []
      (t, follows ++ (others.filter (· ∉ follows)).dedup)
    if more = known then known else follow related rounds more

/-- The lookaheads of a reduction, with the state it is made in. -/
def lookaheads (follows : Follow T N) : List ((Nat × Nat) × List (Option T)) :=
  follows.flatMap fun ((source, n), follow) =>
    (rulesOf ps n).filterMap fun i =>
      (a.walk source (rhsOf ps i)).map fun q => ((q, i), follow)

/-- A state with its shifts, then its reductions in the order of the rules. The action for a
lookahead is the first one. -/
def row (ahead : List ((Nat × Nat) × List (Option T))) (state : Nat) : Row T N where
  actions :=
    let moves := (a.moves[state]?).getD []
    let shifts := moves.filterMap fun (x, q) => (terminalOf x).map fun t => (some t, .shift q)
    let accepts := if (0, 1) ∈ (a.kernels[state]?).getD [] then [(none, .accept)] else []
    let here := ahead.filter fun e => e.1.1 = state
    (List.range ps.length).foldl (fun actions i =>
      actions ++ ((here.filter fun e => e.1.2 = i).flatMap Prod.snd).dedup.filterMap
        fun t => if t ∈ actions.map Prod.fst then none else some (t, .reduce i))
      (shifts ++ accepts)
  gotos := a.gotos state

def table (fuel : Nat) : Table T N :=
  let a := automaton ps fuel
  let empty := nullable ps ps.length
  let pairs := includes ps a empty
  let related t := readsNullable a empty t ++ (pairs.filter fun e => e.1 = t).map Prod.snd
  let follows := follow related a.nonterminalTransitions.length (followDirectly ps a)
  let ahead := lookaheads ps a follows
  (List.range a.moves.length).map (row ps a ahead)

end Construction
end LALR
