import PBus.Idlc.Language

/-! The parser reads every written interface: the table is followed over its tokens. -/
namespace PBus.Idlc
open LALR

def frame (q : Nat) (n : Nonterminal) (v : Value) : Frame Kind Nonterminal Value := ⟨q, sort n, v⟩

def tokenFrame (q : Nat) (token : Token) : Frame Kind Nonterminal Value :=
  ⟨q, .terminal token.kind, .text token.text⟩

def atomAhead : List Kind := typeAtoms.map .word ++ [.identifier]

/-- The states in front of a type, and where the type leads. -/
def typeContexts : List (Nat × Nat) := [(4, 19), (23, 19), (31, 33), (38, 33)]

/-- The states in front of a method, and where the declaration leads. -/
def methodContexts : List (Nat × Nat) := [(4, 21), (23, 28)]

/-- The states in front of a scope, and where it leads. -/
def scopeContexts : List (Nat × Nat) := [(3, 5), (24, 30)]

def ahead (input : List Token) : Option Kind := input.head?.map Token.kind

section Table

theorem action_of {q : Nat} {a : Option Kind} {action : Action}
    (entry : Table.action parsetab q a = some action) : Table.action parser q a = some action := by
  rwa [parser_eq]

theorem goto_of {q r : Nat} {n : Nonterminal} (entry : Table.goto parsetab q n = some r) :
    Table.goto parser q n = some r := by
  rwa [parser_eq]

theorem action_at {stack : List (Frame Kind Nonterminal Value)} {q : Nat} {a : Option Kind}
    {action : Action} (here : topState stack = q)
    (entry : Table.action parsetab q a = some action) :
    Table.action parser (topState stack) a = some action := by
  rw [here]
  exact action_of entry

theorem goto_at {stack : List (Frame Kind Nonterminal Value)} {q r : Nat} {n : Nonterminal}
    (here : topState stack = q) (entry : Table.goto parsetab q n = some r) :
    Table.goto parser (topState stack) n = some r := by
  rw [here]
  exact goto_of entry

theorem isAtom_mem {w : Word} (atom : w.isAtom = true) : w ∈ typeAtoms := by
  revert atom
  cases w <;> decide

theorem atom_shift {w : Word} (atom : w.isAtom = true) {q : Nat}
    (known : q ∈ 17 :: typeContexts.map Prod.fst) :
    Table.action parser q (some (.word w)) = some (.shift (atomState w)) := by
  have all : ∀ w ∈ typeAtoms, ∀ q ∈ 17 :: typeContexts.map Prod.fst,
      Table.action parsetab q (some (.word w)) = some (.shift (atomState w)) := by decide +kernel
  exact action_of (all w (isAtom_mem atom) q known)

theorem atom_reduce {w : Word} (atom : w.isAtom = true) {a : Option Kind}
    (next : a ∈ atomAhead.map some) :
    Table.action parser (atomState w) a = some (.reduce (1 + typeAtoms.idxOf w)) := by
  have all : ∀ w ∈ typeAtoms, ∀ a ∈ atomAhead.map some,
      Table.action parsetab (atomState w) a = some (.reduce (1 + typeAtoms.idxOf w)) := by
    decide +kernel
  exact action_of (all w (isAtom_mem atom) a next)

theorem atom_rule {w : Word} (atom : w.isAtom = true) :
    grammar.rule (1 + typeAtoms.idxOf w) = some ⟨.typeAtom, [word w], pTypeAtom⟩ := by
  cases w <;> first | rfl | contradiction

theorem type_gotos {q t : Nat} (context : (q, t) ∈ typeContexts) :
    Table.goto parser q .typeAtom = some 16 ∧ Table.goto parser q .primitive = some 17 ∧
      Table.goto parser q .type = some t ∧
      Table.action parser q (some .identifier) = some (.shift 18) := by
  have all : ∀ c ∈ typeContexts, Table.goto parsetab c.1 .typeAtom = some 16 ∧
      Table.goto parsetab c.1 .primitive = some 17 ∧ Table.goto parsetab c.1 .type = some c.2 ∧
      Table.action parsetab c.1 (some .identifier) = some (.shift 18) := by decide +kernel
  obtain ⟨typeAtom, primitive, type, identifier⟩ := all _ context
  exact ⟨goto_of typeAtom, goto_of primitive, goto_of type, action_of identifier⟩

theorem method_gotos {q d : Nat} (context : (q, d) ∈ methodContexts) :
    (q, 19) ∈ typeContexts ∧ Table.goto parser q .method = some 20 ∧
      Table.goto parser q .declaration = some d := by
  have all : ∀ c ∈ methodContexts, (c.1, 19) ∈ typeContexts ∧
      Table.goto parsetab c.1 .method = some 20 ∧
      Table.goto parsetab c.1 .declaration = some c.2 := by decide +kernel
  obtain ⟨type, method, declaration⟩ := all _ context
  exact ⟨type, goto_of method, goto_of declaration⟩

theorem scope_gotos {q r : Nat} (context : (q, r) ∈ scopeContexts) :
    Table.action parser q (some (.literal .openBrace)) = some (.shift 4) ∧
      Table.goto parser q .scope = some r := by
  have all : ∀ c ∈ scopeContexts,
      Table.action parsetab c.1 (some (.literal .openBrace)) = some (.shift 4) ∧
      Table.goto parsetab c.1 .scope = some c.2 := by decide +kernel
  obtain ⟨opened, scope⟩ := all _ context
  exact ⟨action_of opened, goto_of scope⟩

theorem atomAhead_reduce {q i : Nat} (known : (q, i) ∈ [(16, 11), (25, 10)]) {a : Option Kind}
    (next : a ∈ atomAhead.map some) : Table.action parser q a = some (.reduce i) := by
  have all : ∀ c ∈ [(16, 11), (25, 10)], ∀ a ∈ atomAhead.map some,
      Table.action parsetab c.1 a = some (.reduce c.2) := by decide +kernel
  exact action_of (all _ known a next)

end Table

variable {stack : List (Frame Kind Nonterminal Value)} {rest : List Token}

theorem shift {token : Token} {q : Nat}
    (act : Table.action parser (topState stack) (some token.kind) = some (.shift q)) :
    Goes grammar parser ⟨stack, token :: rest⟩ ⟨tokenFrame q token :: stack, rest⟩ :=
  Goes.shift act

theorem reduce (i : Nat) {q : Nat} {rule : Rule Kind Nonterminal Value Str} {v : Value}
    (top : List (Frame Kind Nonterminal Value)) (found : grammar.rule i = some rule)
    (length : top.length = rule.rhs.length)
    (act : Table.action parser (topState (top ++ stack)) (ahead rest) = some (.reduce i))
    (made : rule.action (top.reverse.map Frame.value) = .ok v)
    (goto : Table.goto parser (topState stack) rule.lhs = some q) :
    Goes grammar parser ⟨top ++ stack, rest⟩ ⟨frame q rule.lhs v :: stack, rest⟩ :=
  Goes.reduce top stack found length act made goto

theorem read_atom {w : Word} (atom : w.isAtom = true) {q : Nat}
    (known : topState stack ∈ 17 :: typeContexts.map Prod.fst)
    (goto : Table.goto parser (topState stack) .typeAtom = some q)
    (next : ahead rest ∈ atomAhead.map some) :
    Goes grammar parser ⟨stack, .word w :: rest⟩
      ⟨frame q .typeAtom (.text w.text) :: stack, rest⟩ := by
  refine Goes.trans (shift (atom_shift atom known)) ?_
  exact reduce _ [tokenFrame (atomState w) (.word w)] (atom_rule atom) rfl (atom_reduce atom next)
    rfl goto

theorem atoms_ahead {atoms : List Word} (isAtom : ∀ w ∈ atoms, w.isAtom = true)
    (name : Identifier) (rest : List Token) :
    ahead (atoms.map .word ++ .identifier name :: rest) ∈ atomAhead.map some := by
  cases atoms with
  | nil => exact List.mem_map_of_mem (show Kind.identifier ∈ atomAhead by decide)
  | cons w atoms =>
    apply List.mem_map_of_mem
    apply List.mem_append_left
    exact List.mem_map_of_mem (isAtom_mem (isAtom w List.mem_cons_self))

theorem read_atoms {context : List (Frame Kind Nonterminal Value)} {t : Nat}
    (here : (topState context, t) ∈ typeContexts) (name : Identifier) {before atoms : List Word}
    (isAtom : ∀ w ∈ atoms, w.isAtom = true) (single : (bases (before ++ atoms)).length ≤ 1) :
    Goes grammar parser ⟨frame 17 .primitive (.type (atomsTree before)) :: context,
        atoms.map .word ++ .identifier name :: rest⟩
      ⟨frame 17 .primitive (.type (atomsTree (before ++ atoms))) :: context,
        .identifier name :: rest⟩ := by
  induction atoms generalizing before with
  | nil =>
    rw [List.append_nil]
    exact .refl _
  | cons w atoms ih =>
    have atom := isAtom w List.mem_cons_self
    have isAtom' : ∀ w ∈ atoms, w.isAtom = true := fun w hw => isAtom w (List.mem_cons_of_mem _ hw)
    have next := atoms_ahead isAtom' name rest
    rw [List.append_cons] at single
    have single' : (bases (before ++ [w])).length ≤ 1 := by
      refine Nat.le_trans ?_ single
      rw [bases, bases, List.filter_append (before ++ [w]), List.length_append]
      exact Nat.le_add_right _ _
    have made : pPrimitive [.type (atomsTree before), .text w.text] =
        .ok (.type (atomsTree (before ++ [w]))) := by
      rw [pPrimitive, atomsTree_add single']
      rfl
    have here' : topState (frame 17 .primitive (.type (atomsTree before)) :: context) ∈
        17 :: typeContexts.map Prod.fst := List.mem_cons_self
    refine Goes.trans (read_atom atom here' (goto_of rfl) next) ?_
    refine Goes.trans (reduce 10 [frame 25 .typeAtom (.text w.text),
      frame 17 .primitive (.type (atomsTree before))] rfl rfl
      (atomAhead_reduce (q := 25) (by decide) next) made (type_gotos here).2.1) ?_
    rw [List.append_cons before w atoms]
    exact ih isAtom' single

theorem read_type {t : Nat} (here : (topState stack, t) ∈ typeContexts) (s : SourceType)
    (name : Identifier) :
    Goes grammar parser ⟨stack, s.tokens ++ .identifier name :: rest⟩
      ⟨frame t .type (.type s.tree) :: stack, .identifier name :: rest⟩ := by
  obtain ⟨typeAtom, primitive, goto, identifier⟩ := type_gotos here
  cases s with
  | named n =>
    have made : pType [.text n.text] = .ok (.type { type := some n.text }) := by
      rw [pType, IdlType.add_identifier]
      rfl
    refine Goes.trans (shift identifier) ?_
    exact reduce 13 [tokenFrame 18 (.identifier n)] rfl rfl (action_of rfl) made goto
  | primitive p =>
    obtain ⟨w, atoms, split⟩ := List.exists_cons_of_ne_nil p.nonempty
    have isAtom := p.atom
    have single : (bases p.atoms).length ≤ 1 := p.single
    rw [split] at isAtom single
    have isAtom' : ∀ w ∈ atoms, w.isAtom = true := fun w hw => isAtom w (List.mem_cons_of_mem _ hw)
    have next := atoms_ahead isAtom' name rest
    have made : pPrimitive [.text w.text] = .ok (.type (atomsTree [w])) := by
      rw [pPrimitive, add_first]
      rfl
    rw [SourceType.tokens, SourceType.tree, p.tree_eq, split]
    refine Goes.trans (read_atom (isAtom w List.mem_cons_self)
      (List.mem_cons_of_mem _ (List.mem_map_of_mem here)) typeAtom next) ?_
    refine Goes.trans (reduce 11 [frame 16 .typeAtom (.text w.text)] rfl rfl
      (atomAhead_reduce (q := 16) (by decide) next) made primitive) ?_
    refine Goes.trans (read_atoms here name isAtom' single) ?_
    exact reduce 12 [frame 17 .primitive (.type (atomsTree (w :: atoms)))] rfl rfl (action_of rfl)
      rfl goto

/-- What can follow an argument. -/
def separators : List (Option Kind) := [some (.literal .comma), some (.literal .closeParen)]

/-- The states that reduce in front of these, and the rules. -/
def separatorRules : List (Nat × Nat) := [(31, 20), (34, 16), (35, 17), (37, 14), (40, 15)]

theorem separators_reduce {q i : Nat} (known : (q, i) ∈ separatorRules) {a : Option Kind}
    (next : a ∈ separators) : Table.action parser q a = some (.reduce i) := by
  have all : ∀ c ∈ separatorRules, ∀ a ∈ separators,
      Table.action parsetab c.1 a = some (.reduce c.2) := by decide +kernel
  exact action_of (all _ known a next)

theorem read_argument {q : Nat} (here : (topState stack, 33) ∈ typeContexts)
    (goto : Table.goto parser (topState stack) .argument = some q) (a : SourceArgument)
    (next : ahead rest ∈ separators) :
    Goes grammar parser ⟨stack, a.tokens ++ rest⟩
      ⟨frame q .argument (.argument a.tree) :: stack, rest⟩ := by
  rw [SourceArgument.tokens, List.append_assoc]
  refine Goes.trans (read_type here a.type a.name) ?_
  refine Goes.trans (shift (action_of rfl)) ?_
  exact reduce 14 [tokenFrame 37 (.identifier a.name), frame 33 .type (.type a.type.tree)] rfl rfl
    (separators_reduce (q := 37) (by decide) next) rfl goto

/-- No argument is in front of the first comma, or behind the parenthesis. -/
theorem read_empty (below : topState stack = 31) (next : ahead rest ∈ separators) :
    Goes grammar parser ⟨stack, rest⟩
      ⟨frame 36 .argumentList (.arguments []) :: stack, rest⟩ := by
  have act : Table.action parser (topState stack) (ahead rest) = some (.reduce 20) := by
    rw [below]
    exact separators_reduce (by decide) next
  refine Goes.trans (reduce 20 [] rfl rfl act rfl (goto_at below rfl)) ?_
  exact reduce 17 [frame 35 .empty .none] rfl rfl (separators_reduce (q := 35) (by decide) next) rfl
    (goto_at below rfl)

theorem further_ahead (args : List SourceArgument) (rest : List Token) :
    ahead (further args ++ .literal .closeParen :: rest) ∈ separators := by
  cases args with
  | nil => exact List.mem_cons_of_mem _ List.mem_cons_self
  | cons a args => exact List.mem_cons_self

theorem read_further (below : topState stack = 31) (args : List SourceArgument)
    (before : List Argument) :
    Goes grammar parser ⟨frame 36 .argumentList (.arguments before) :: stack,
        further args ++ .literal .closeParen :: rest⟩
      ⟨frame 36 .argumentList (.arguments (before ++ args.map SourceArgument.tree)) :: stack,
        .literal .closeParen :: rest⟩ := by
  induction args generalizing before with
  | nil =>
    rw [List.map_nil, List.append_nil]
    exact .refl _
  | cons a args ih =>
    have next := further_ahead args rest
    have tokens : further (a :: args) ++ .literal .closeParen :: rest =
        .literal .comma :: (a.tokens ++ (further args ++ .literal .closeParen :: rest)) := by
      simp [further]
    have here : (topState (tokenFrame 38 (.literal .comma) ::
        frame 36 .argumentList (.arguments before) :: stack), 33) ∈ typeContexts :=
      show (38, 33) ∈ typeContexts by decide
    rw [tokens, List.map_cons, List.append_cons before]
    refine Goes.trans (shift (action_of rfl)) ?_
    refine Goes.trans (read_argument here (goto_of rfl) a next) ?_
    refine Goes.trans (reduce 15 [frame 40 .argument (.argument a.tree),
      tokenFrame 38 (.literal .comma), frame 36 .argumentList (.arguments before)] rfl rfl
      (separators_reduce (q := 40) (by decide) next) rfl (goto_at below rfl)) ?_
    exact ih _

theorem read_arguments (below : topState stack = 31) {comma : Bool} {args : List SourceArgument}
    (before : comma = true → args ≠ []) :
    Goes grammar parser ⟨stack, argumentTokens comma args ++ .literal .closeParen :: rest⟩
      ⟨frame 36 .argumentList (.arguments (args.map SourceArgument.tree)) :: stack,
        .literal .closeParen :: rest⟩ := by
  cases comma with
  | true =>
    have tokens : argumentTokens true args = further args := comma_separated (before rfl)
    rw [tokens]
    exact (read_empty below (further_ahead args rest)).trans (read_further below args [])
  | false =>
    cases args with
    | nil => exact read_empty below (further_ahead [] rest)
    | cons a args =>
      have next := further_ahead args rest
      have tokens : argumentTokens false (a :: args) = a.tokens ++ further args :=
        separated_cons a args
      have here : (topState stack, 33) ∈ typeContexts := by
        rw [below]
        decide
      rw [tokens, List.append_assoc]
      refine Goes.trans (read_argument here (goto_at below rfl) a next) ?_
      refine Goes.trans (reduce 16 [frame 34 .argument (.argument a.tree)] rfl rfl
        (separators_reduce (q := 34) (by decide) next) rfl (goto_at below rfl)) ?_
      exact read_further below args [a.tree]

theorem read_method {q : Nat} (here : (topState stack, q) ∈ methodContexts)
    (m : SourceMethod) :
    Goes grammar parser ⟨stack, m.tokens ++ .literal .semicolon :: rest⟩
      ⟨frame q .declaration (.method m.tree) :: stack, .literal .semicolon :: rest⟩ := by
  obtain ⟨context, method, declaration⟩ := method_gotos here
  have tokens : m.tokens ++ .literal .semicolon :: rest = m.type.tokens ++ .identifier m.name ::
      .literal .openParen :: (argumentTokens m.comma m.arguments ++
        .literal .closeParen :: .literal .semicolon :: rest) := by
    simp [SourceMethod.tokens, argumentTokens]
  rw [tokens]
  refine Goes.trans (read_type context m.type m.name) ?_
  refine Goes.trans (shift (q := 26) (action_of rfl)) ?_
  refine Goes.trans (shift (q := 31) (action_of rfl)) ?_
  refine Goes.trans (read_arguments rfl m.before) ?_
  refine Goes.trans (shift (q := 39) (action_of rfl)) ?_
  refine Goes.trans (reduce 18 [tokenFrame 39 (.literal .closeParen),
    frame 36 .argumentList (.arguments (m.arguments.map SourceArgument.tree)),
    tokenFrame 31 (.literal .openParen), tokenFrame 26 (.identifier m.name),
    frame 19 .type (.type m.type.tree)] rfl rfl (action_of rfl) rfl method) ?_
  exact reduce 19 [frame 20 .method (.method m.tree)] rfl rfl (action_of rfl) rfl
    declaration

def declarationAhead : List (Option Kind) := atomAhead.map some ++ [some (.literal .closeBrace)]

theorem declared_ahead (methods : List SourceMethod) (rest : List Token) :
    ahead (declared methods ++ .literal .closeBrace :: rest) ∈ declarationAhead := by
  cases methods with
  | nil => exact List.mem_append_right _ List.mem_cons_self
  | cons m methods =>
    apply List.mem_append_left
    have tokens : declared (m :: methods) ++ .literal .closeBrace :: rest =
        m.type.tokens ++ .identifier m.name :: (.literal .openParen ::
          (argumentTokens m.comma m.arguments ++ .literal .closeParen :: .literal .semicolon ::
            (declared methods ++ .literal .closeBrace :: rest))) := by
      simp [declared, SourceMethod.tokens, argumentTokens]
    rw [tokens]
    cases m.type with
    | named n => exact List.mem_map_of_mem (show Kind.identifier ∈ atomAhead by decide)
    | primitive p => exact atoms_ahead p.atom m.name _

theorem declarations_reduce {q i : Nat} (known : (q, i) ∈ [(22, 23), (27, 22), (32, 21)])
    {a : Option Kind} (next : a ∈ declarationAhead) :
    Table.action parser q a = some (.reduce i) := by
  have all : ∀ c ∈ [(22, 23), (27, 22), (32, 21)], ∀ a ∈ declarationAhead,
      Table.action parsetab c.1 a = some (.reduce c.2) := by decide +kernel
  exact action_of (all _ known a next)

theorem declared_cons (m : SourceMethod) (methods : List SourceMethod) :
    declared (m :: methods) ++ .literal .closeBrace :: rest = m.tokens ++ .literal .semicolon ::
      (declared methods ++ .literal .closeBrace :: rest) := by
  simp [declared]

theorem read_more_methods (below : topState stack = 4) (methods : List SourceMethod)
    (before : List Method) :
    Goes grammar parser ⟨frame 23 .declarationList (.methods before) :: stack,
        declared methods ++ .literal .closeBrace :: rest⟩
      ⟨frame 23 .declarationList (.methods (before ++ methods.map SourceMethod.tree)) :: stack,
        .literal .closeBrace :: rest⟩ := by
  induction methods generalizing before with
  | nil =>
    rw [List.map_nil, List.append_nil]
    exact .refl _
  | cons m methods ih =>
    have next := declared_ahead methods rest
    have here : (topState (frame 23 .declarationList (.methods before) :: stack), 28) ∈
        methodContexts := show (23, 28) ∈ methodContexts by decide
    rw [declared_cons, List.map_cons, List.append_cons before]
    refine Goes.trans (read_method here m) ?_
    refine Goes.trans (shift (q := 32) (action_of rfl)) ?_
    refine Goes.trans (reduce 21 [tokenFrame 32 (.literal .semicolon),
      frame 28 .declaration (.method m.tree), frame 23 .declarationList (.methods before)] rfl rfl
      (declarations_reduce (q := 32) (by decide) next) rfl (goto_at below rfl)) ?_
    exact ih _

/-- No method is in front of the brace that closes. -/
theorem read_methods (below : topState stack = 4) (methods : List SourceMethod) :
    Goes grammar parser ⟨stack, declared methods ++ .literal .closeBrace :: rest⟩
      ⟨frame 23 .declarationList (.methods (methods.map SourceMethod.tree)) :: stack,
        .literal .closeBrace :: rest⟩ := by
  have next := declared_ahead methods rest
  cases methods with
  | nil =>
    refine Goes.trans (reduce 20 [] rfl rfl (action_at below rfl) rfl (goto_at below rfl)) ?_
    exact reduce 23 [frame 22 .empty .none] rfl rfl (declarations_reduce (q := 22) (by decide) next)
      rfl (goto_at below rfl)
  | cons m methods =>
    have next := declared_ahead methods rest
    have here : (topState stack, 21) ∈ methodContexts := by
      rw [below]
      decide
    rw [declared_cons]
    refine Goes.trans (read_method here m) ?_
    refine Goes.trans (shift (q := 27) (action_of rfl)) ?_
    refine Goes.trans (reduce 22 [tokenFrame 27 (.literal .semicolon),
      frame 21 .declaration (.method m.tree)] rfl rfl
      (declarations_reduce (q := 27) (by decide) next) rfl (goto_at below rfl)) ?_
    exact read_more_methods below methods [m.tree]

theorem read_scope {q : Nat} (here : (topState stack, q) ∈ scopeContexts)
    (methods : List SourceMethod) :
    Goes grammar parser ⟨stack, braced methods⟩
      ⟨frame q .scope (.methods (methods.map SourceMethod.tree)) :: stack, []⟩ := by
  obtain ⟨opened, scope⟩ := scope_gotos here
  have tokens : braced methods =
      .literal .openBrace :: (declared methods ++ [.literal .closeBrace]) := by
    simp [braced]
  rw [tokens]
  refine Goes.trans (shift opened) ?_
  refine Goes.trans (read_methods rfl methods) ?_
  refine Goes.trans (shift (q := 29) (action_of rfl)) ?_
  exact reduce 24 [tokenFrame 29 (.literal .closeBrace),
    frame 23 .declarationList (.methods (methods.map SourceMethod.tree)),
    tokenFrame 4 (.literal .openBrace)] rfl rfl (action_of rfl) rfl scope

theorem read_source (s : Source) :
    Goes grammar parser (start s.tokens)
      ⟨[frame 1 .interfaceDeclaration (.interface s.tree)], []⟩ := by
  cases based : s.base with
  | none =>
    have tokens : s.tokens = .word .interface :: .identifier s.name :: braced s.methods := by
      simp [Source.tokens, based]
    have tree : s.tree = ⟨s.name.text, none, s.methods.map SourceMethod.tree⟩ := by
      simp [Source.tree, based]
    rw [tokens, tree]
    refine Goes.trans (shift (q := 2) (action_of rfl)) ?_
    refine Goes.trans (shift (q := 3) (action_of rfl)) ?_
    have here : (topState [tokenFrame 3 (.identifier s.name), tokenFrame 2 (.word .interface)], 5) ∈
        scopeContexts := show (3, 5) ∈ scopeContexts by decide
    refine Goes.trans (read_scope here s.methods) ?_
    exact reduce 25 [frame 5 .scope (.methods (s.methods.map SourceMethod.tree)),
      tokenFrame 3 (.identifier s.name), tokenFrame 2 (.word .interface)] rfl rfl (action_of rfl)
      rfl (goto_of rfl)
  | some base =>
    have tokens : s.tokens = .word .interface :: .identifier s.name :: .literal .colon ::
        .identifier base :: braced s.methods := by
      simp [Source.tokens, based]
    have tree : s.tree = ⟨s.name.text, some base.text, s.methods.map SourceMethod.tree⟩ := by
      simp [Source.tree, based]
    rw [tokens, tree]
    refine Goes.trans (shift (q := 2) (action_of rfl)) ?_
    refine Goes.trans (shift (q := 3) (action_of rfl)) ?_
    refine Goes.trans (shift (q := 6) (action_of rfl)) ?_
    refine Goes.trans (shift (q := 24) (action_of rfl)) ?_
    have here : (topState [tokenFrame 24 (.identifier base), tokenFrame 6 (.literal .colon),
        tokenFrame 3 (.identifier s.name), tokenFrame 2 (.word .interface)], 30) ∈
        scopeContexts := show (24, 30) ∈ scopeContexts by decide
    refine Goes.trans (read_scope here s.methods) ?_
    exact reduce 26 [frame 30 .scope (.methods (s.methods.map SourceMethod.tree)),
      tokenFrame 24 (.identifier base), tokenFrame 6 (.literal .colon),
      tokenFrame 3 (.identifier s.name), tokenFrame 2 (.word .interface)] rfl rfl (action_of rfl)
      rfl (goto_of rfl)

/-- Every written interface is accepted, and its tree is returned. -/
theorem parse_complete (s : Source) : parse s.tokens = .ok (.interface s.tree) := by
  have act : Table.action parser 1 none = some .accept := action_of rfl
  exact (read_source s).result (step_accept act) (parse_ran s.tokens)

end PBus.Idlc
