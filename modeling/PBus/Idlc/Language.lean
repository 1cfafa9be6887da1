import PBus.Idlc.Grammar
import Mathlib.Data.List.Infix

/-! The language of interfaces, its trees, and that the rules of the grammar derive nothing else. -/
namespace PBus.Idlc
open LALR

def SourceType.tokens : SourceType → List Token
  | .named name => [.identifier name]
  | .primitive p => p.atoms.map .word

structure SourceArgument where
  type : SourceType
  name : Identifier

namespace SourceArgument

def tokens (a : SourceArgument) : List Token := a.type.tokens ++ [.identifier a.name]

def tree (a : SourceArgument) : Argument := ⟨a.type.tree, a.name.text⟩

end SourceArgument

def separated (args : List SourceArgument) : List Token :=
  [.literal .comma].intercalate (args.map SourceArgument.tokens)

/-- A method. The parser takes a comma in front of the arguments, which the language does not
have. -/
structure SourceMethod where
  type : SourceType
  name : Identifier
  arguments : List SourceArgument
  comma : Bool
  before : comma = true → arguments ≠ []

namespace SourceMethod

def tokens (m : SourceMethod) : List Token :=
  m.type.tokens ++ [.identifier m.name, .literal .openParen] ++
    (if m.comma then [.literal .comma] else []) ++ separated m.arguments ++ [.literal .closeParen]

def tree (m : SourceMethod) : Method :=
  ⟨m.type.tree, m.name.text, m.arguments.map SourceArgument.tree⟩

end SourceMethod

def declared (methods : List SourceMethod) : List Token :=
  methods.flatMap fun m => m.tokens ++ [.literal .semicolon]

def braced (methods : List SourceMethod) : List Token :=
  [.literal .openBrace] ++ declared methods ++ [.literal .closeBrace]

structure Source where
  name : Identifier
  base : Option Identifier
  methods : List SourceMethod

namespace Source

def tokens (s : Source) : List Token :=
  [.word .interface, .identifier s.name] ++
    s.base.elim [] (fun base => [.literal .colon, .identifier base]) ++ braced s.methods

def tree (s : Source) : Interface :=
  ⟨s.name.text, s.base.map Identifier.text, s.methods.map SourceMethod.tree⟩

/-- No comma comes in front of arguments. -/
def Intended (s : Source) : Prop := ∀ m ∈ s.methods, m.comma = false

end Source

def bases (atoms : List Word) : List Word := atoms.filter fun w => !w.isModifier

/-- As `Primitive.tree`, whatever the atoms. -/
def atomsTree (atoms : List Word) : IdlType where
  mods := (atoms.filter Word.isModifier).map Word.text
  type := (atoms.find? fun w => !w.isModifier).map Word.text

theorem Primitive.tree_eq (p : Primitive) : p.tree = atomsTree p.atoms := rfl

theorem bases_modifier {w : Word} (modifier : w.isModifier = true) (atoms : List Word) :
    bases (atoms ++ [w]) = bases atoms := by
  simp [bases, List.filter_append, modifier]

theorem bases_base {w : Word} (base : w.isModifier = false) (atoms : List Word) :
    bases (atoms ++ [w]) = bases atoms ++ [w] := by
  simp [bases, List.filter_append, base]

theorem atomsTree_type (atoms : List Word) :
    (atomsTree atoms).type = (bases atoms).head?.map Word.text := by
  rw [bases, List.head?_filter, atomsTree]

/-- `add` goes on with a run of atoms as long as at most one is not a modifier. -/
theorem atomsTree_add {atoms : List Word} {w : Word}
    (single : (bases (atoms ++ [w])).length ≤ 1) :
    (atomsTree atoms).add w.text = .ok (atomsTree (atoms ++ [w])) := by
  cases modifier : w.isModifier with
  | true =>
    rw [IdlType.add_modifier _ modifier]
    simp [atomsTree, List.filter_append, List.find?_append, modifier]
  | false =>
    have none' : bases atoms = [] := by
      rw [bases_base modifier, List.length_append, List.length_singleton] at single
      exact List.length_eq_zero_iff.mp (by omega)
    have free : (atomsTree atoms).type = none := by rw [atomsTree_type, none']; rfl
    have first : atoms.find? (fun w => !w.isModifier) = none := by
      rw [← List.head?_filter]
      exact congrArg List.head? none'
    rw [IdlType.add_base free modifier]
    simp [atomsTree, List.filter_append, List.find?_append, modifier, first]

theorem add_first (w : Word) : IdlType.add {} w.text = .ok (atomsTree [w]) :=
  @atomsTree_add [] w (List.length_filter_le _ _)

/-- And throws at the second one. -/
theorem bases_of_add {atoms : List Word} {w : Word} {t : IdlType}
    (single : (bases atoms).length ≤ 1) (added : (atomsTree atoms).add w.text = .ok t) :
    (bases (atoms ++ [w])).length ≤ 1 := by
  cases modifier : w.isModifier with
  | true => rwa [bases_modifier modifier]
  | false =>
    cases known : (atomsTree atoms).type with
    | some other =>
      rw [IdlType.add_second known modifier] at added
      contradiction
    | none =>
      rw [atomsTree_type, Option.map_eq_none_iff, List.head?_eq_none_iff] at known
      rw [bases_base modifier, known]
      exact Nat.le_refl 1

def further (args : List SourceArgument) : List Token :=
  args.flatMap fun a => .literal .comma :: a.tokens

theorem separated_cons (a : SourceArgument) (args : List SourceArgument) :
    separated (a :: args) = a.tokens ++ further args := by
  induction args generalizing a with
  | nil => simp [separated, further]
  | cons b args ih =>
    rw [separated, List.map_cons, List.map_cons, List.intercalate_cons_cons]
    change _ ++ separated (b :: args) = _
    rw [ih]
    simp [further]

theorem comma_separated {args : List SourceArgument} (some' : args ≠ []) :
    .literal .comma :: separated args = further args := by
  cases args with
  | nil => exact absurd rfl some'
  | cons a args =>
    rw [separated_cons]
    rfl

def argumentTokens (comma : Bool) (args : List SourceArgument) : List Token :=
  (if comma then [.literal .comma] else []) ++ separated args

theorem argumentTokens_append {comma : Bool} {args : List SourceArgument}
    (before : comma = true → args ≠ []) (a : SourceArgument) :
    ∃ comma', (comma' = true → args ++ [a] ≠ []) ∧
      argumentTokens comma args ++ .literal .comma :: a.tokens =
        argumentTokens comma' (args ++ [a]) := by
  cases args with
  | nil =>
    cases comma with
    | true => exact absurd rfl (before rfl)
    | false => exact ⟨true, by simp, by simp [argumentTokens, separated]⟩
  | cons b args =>
    refine ⟨comma, by simp, ?_⟩
    rw [List.cons_append, argumentTokens, argumentTokens, separated_cons, separated_cons]
    simp [further]

def Means : Nonterminal → List Token → Value → Prop
  | .typeAtom, ws, v => ∃ w : Word, w.isAtom = true ∧ ws = [.word w] ∧ v = .text w.text
  | .primitive, ws, v => ∃ p : Primitive, ws = p.atoms.map .word ∧ v = .type p.tree
  | .type, ws, v => ∃ s : SourceType, ws = s.tokens ∧ v = .type s.tree
  | .argument, ws, v => ∃ a : SourceArgument, ws = a.tokens ∧ v = .argument a.tree
  | .argumentList, ws, v => ∃ comma args, (comma = true → args ≠ []) ∧
      ws = argumentTokens comma args ∧ v = .arguments (args.map SourceArgument.tree)
  | .method, ws, v | .declaration, ws, v => ∃ m : SourceMethod, ws = m.tokens ∧ v = .method m.tree
  | .empty, ws, v => ws = [] ∧ v = .none
  | .declarationList, ws, v => ∃ ms, ws = declared ms ∧ v = .methods (ms.map SourceMethod.tree)
  | .scope, ws, v => ∃ ms, ws = braced ms ∧ v = .methods (ms.map SourceMethod.tree)
  | .interfaceDeclaration, ws, v => ∃ s : Source, ws = s.tokens ∧ v = .interface s.tree

/-- A rule makes what its left side means of what its right side means. -/
def Keeps (rule : Rule Kind Nonterminal Value Str) : Prop :=
  ∀ us args v, Meant grammar Means rule.rhs us args → rule.action args = .ok v →
    Means rule.lhs us v

theorem Token.of_kind_literal {token : Token} {l : Literal} (kind : token.kind = .literal l) :
    token = .literal l := by
  cases token with
  | literal l' => exact congrArg Token.literal (Kind.literal.inj kind)
  | identifier name | word w => contradiction

theorem Token.of_kind_word {token : Token} {w : Word} (kind : token.kind = .word w) :
    token = .word w := by
  cases token with
  | word w' => exact congrArg Token.word (Kind.word.inj kind)
  | identifier name | literal l => contradiction

theorem Token.of_kind_identifier {token : Token} (kind : token.kind = .identifier) :
    ∃ name, token = .identifier name := by
  cases token with
  | identifier name => exact ⟨name, rfl⟩
  | word w | literal l => contradiction

theorem typeAtoms_isAtom {w : Word} (member : w ∈ typeAtoms) : w.isAtom = true := by
  revert w
  decide

theorem typeAtom_keeps {w : Word} (atom : w.isAtom = true) :
    Keeps ⟨.typeAtom, [word w], pTypeAtom⟩ := by
  rintro us args v ⟨token, _, _, kind, rfl, rfl, rfl, rfl⟩ made
  obtain rfl := Token.of_kind_word kind
  exact ⟨w, atom, rfl, (Except.ok.inj made).symm⟩

theorem map_type {t : Except Str IdlType} {v : Value} (made : t.map .type = .ok v) :
    ∃ t', t = .ok t' ∧ v = .type t' := by
  cases t with
  | error e => contradiction
  | ok t' => exact ⟨t', rfl, (Except.ok.inj made).symm⟩

theorem primitive_more_keeps :
    Keeps ⟨.primitive, [sort .primitive, sort .typeAtom], pPrimitive⟩ := by
  rintro us args v
    ⟨_, _, _, _, ⟨p, rfl, rfl⟩, rfl, rfl, _, _, _, _, ⟨w, atom, rfl, rfl⟩, rfl, rfl, rfl, rfl⟩ made
  obtain ⟨t, added, rfl⟩ := map_type made
  have single : (bases (p.atoms ++ [w])).length ≤ 1 := bases_of_add p.single added
  have atoms : ∀ x ∈ p.atoms ++ [w], x.isAtom = true := by
    intro x member
    rcases List.mem_append.mp member with old | new
    · exact p.atom x old
    · rwa [List.mem_singleton.mp new]
  refine ⟨⟨p.atoms ++ [w], by simp, atoms, single⟩, by simp, ?_⟩
  rw [Primitive.tree_eq, atomsTree_add single] at added
  rw [← Except.ok.inj added]
  rfl

theorem primitive_keeps : Keeps ⟨.primitive, [sort .typeAtom], pPrimitive⟩ := by
  rintro us args v ⟨_, _, _, _, ⟨w, atom, rfl, rfl⟩, rfl, rfl, rfl, rfl⟩ made
  obtain ⟨t, added, rfl⟩ := map_type made
  refine ⟨⟨[w], by simp, by simpa using atom, List.length_filter_le _ _⟩, rfl, ?_⟩
  rw [← Except.ok.inj ((add_first w).symm.trans added)]
  rfl

theorem type_primitive_keeps : Keeps ⟨.type, [sort .primitive], pType⟩ := by
  rintro us args v ⟨_, _, _, _, ⟨p, rfl, rfl⟩, rfl, rfl, rfl, rfl⟩ made
  exact ⟨.primitive p, List.append_nil _, (Except.ok.inj made).symm⟩

theorem type_identifier_keeps : Keeps ⟨.type, [identifier], pType⟩ := by
  rintro us args v ⟨token, _, _, kind, rfl, rfl, rfl, rfl⟩ made
  obtain ⟨name, rfl⟩ := Token.of_kind_identifier kind
  obtain ⟨t, added, rfl⟩ := map_type made
  refine ⟨.named name, rfl, ?_⟩
  rw [← Except.ok.inj ((IdlType.add_identifier name).symm.trans added)]
  rfl

theorem argument_keeps : Keeps ⟨.argument, [sort .type, identifier], pArgument⟩ := by
  rintro us args v ⟨_, _, _, _, ⟨s, rfl, rfl⟩, rfl, rfl, token, _, _, kind, rfl, rfl, rfl, rfl⟩ made
  obtain ⟨name, rfl⟩ := Token.of_kind_identifier kind
  exact ⟨⟨s, name⟩, rfl, (Except.ok.inj made).symm⟩

theorem argumentList_more_keeps :
    Keeps ⟨.argumentList, [sort .argumentList, literal .comma, sort .argument],
      pArgumentList⟩ := by
  rintro us args v ⟨_, _, _, _, ⟨comma, list, before, rfl, rfl⟩, rfl, rfl, token, _, _, kind, rfl,
    rfl, _, _, _, _, ⟨a, rfl, rfl⟩, rfl, rfl, rfl, rfl⟩ made
  obtain rfl := Token.of_kind_literal kind
  obtain ⟨comma', before', tokens⟩ := argumentTokens_append before a
  refine ⟨comma', list ++ [a], before', ?_, ?_⟩
  · rw [List.append_nil, tokens]
  · rw [List.map_append]
    exact (Except.ok.inj made).symm

theorem argumentList_keeps : Keeps ⟨.argumentList, [sort .argument], pArgumentList⟩ := by
  rintro us args v ⟨_, _, _, _, ⟨a, rfl, rfl⟩, rfl, rfl, rfl, rfl⟩ made
  exact ⟨false, [a], by simp, by simp [argumentTokens, separated], (Except.ok.inj made).symm⟩

theorem argumentList_empty_keeps : Keeps ⟨.argumentList, [sort .empty], pArgumentList⟩ := by
  rintro us args v ⟨_, _, _, _, ⟨rfl, rfl⟩, rfl, rfl, rfl, rfl⟩ made
  exact ⟨false, [], by simp, rfl, (Except.ok.inj made).symm⟩

theorem method_keeps :
    Keeps ⟨.method, [sort .type, identifier, literal .openParen, sort .argumentList,
      literal .closeParen], pMethod⟩ := by
  rintro us args v ⟨_, _, _, _, ⟨s, rfl, rfl⟩, rfl, rfl, _, _, _, named, rfl, rfl, _, _, _, opened,
    rfl, rfl, _, _, _, _, ⟨comma, list, before, rfl, rfl⟩, rfl, rfl, _, _, _, closed, rfl, rfl, rfl,
    rfl⟩ made
  obtain ⟨name, rfl⟩ := Token.of_kind_identifier named
  obtain rfl := Token.of_kind_literal opened
  obtain rfl := Token.of_kind_literal closed
  refine ⟨⟨s, name, list, comma, before⟩, ?_, (Except.ok.inj made).symm⟩
  simp [SourceMethod.tokens, argumentTokens]

theorem declaration_keeps : Keeps ⟨.declaration, [sort .method], pDeclaration⟩ := by
  rintro us args v ⟨_, _, _, _, ⟨m, rfl, rfl⟩, rfl, rfl, rfl, rfl⟩ made
  exact ⟨m, List.append_nil _, (Except.ok.inj made).symm⟩

theorem empty_keeps : Keeps ⟨.empty, [], pEmpty⟩ := by
  rintro us args v ⟨rfl, rfl⟩ made
  exact ⟨rfl, (Except.ok.inj made).symm⟩

theorem declarationList_more_keeps :
    Keeps ⟨.declarationList, [sort .declarationList, sort .declaration, literal .semicolon],
      pDeclarationList⟩ := by
  rintro us args v ⟨_, _, _, _, ⟨ms, rfl, rfl⟩, rfl, rfl, _, _, _, _, ⟨m, rfl, rfl⟩, rfl, rfl,
    _, _, _, kind, rfl, rfl, rfl, rfl⟩ made
  obtain rfl := Token.of_kind_literal kind
  refine ⟨ms ++ [m], by simp [declared], ?_⟩
  rw [List.map_append]
  exact (Except.ok.inj made).symm

theorem declarationList_keeps :
    Keeps ⟨.declarationList, [sort .declaration, literal .semicolon], pDeclarationList⟩ := by
  rintro us args v ⟨_, _, _, _, ⟨m, rfl, rfl⟩, rfl, rfl, _, _, _, kind, rfl, rfl, rfl, rfl⟩ made
  obtain rfl := Token.of_kind_literal kind
  exact ⟨[m], by simp [declared], (Except.ok.inj made).symm⟩

theorem declarationList_empty_keeps :
    Keeps ⟨.declarationList, [sort .empty], pDeclarationList⟩ := by
  rintro us args v ⟨_, _, _, _, ⟨rfl, rfl⟩, rfl, rfl, rfl, rfl⟩ made
  exact ⟨[], rfl, (Except.ok.inj made).symm⟩

theorem scope_keeps :
    Keeps ⟨.scope, [literal .openBrace, sort .declarationList, literal .closeBrace], pScope⟩ := by
  rintro us args v ⟨_, _, _, opened, rfl, rfl, _, _, _, _, ⟨ms, rfl, rfl⟩, rfl, rfl, _, _, _,
    closed, rfl, rfl, rfl, rfl⟩ made
  obtain rfl := Token.of_kind_literal opened
  obtain rfl := Token.of_kind_literal closed
  exact ⟨ms, rfl, (Except.ok.inj made).symm⟩

theorem interfaceDeclaration_keeps :
    Keeps ⟨.interfaceDeclaration, [word .interface, identifier, sort .scope],
      pInterfaceDeclaration⟩ := by
  rintro us args v ⟨_, _, _, first, rfl, rfl, _, _, _, named, rfl, rfl, _, _, _, _, ⟨ms, rfl, rfl⟩,
    rfl, rfl, rfl, rfl⟩ made
  obtain rfl := Token.of_kind_word first
  obtain ⟨name, rfl⟩ := Token.of_kind_identifier named
  refine ⟨⟨name, none, ms⟩, ?_, (Except.ok.inj made).symm⟩
  simp [Source.tokens]

theorem interfaceDeclaration_base_keeps :
    Keeps ⟨.interfaceDeclaration, [word .interface, identifier, literal .colon, identifier,
      sort .scope], pInterfaceDeclaration⟩ := by
  rintro us args v ⟨_, _, _, first, rfl, rfl, _, _, _, named, rfl, rfl, _, _, _, colon, rfl, rfl,
    _, _, _, based, rfl, rfl, _, _, _, _, ⟨ms, rfl, rfl⟩, rfl, rfl, rfl, rfl⟩ made
  obtain rfl := Token.of_kind_word first
  obtain ⟨name, rfl⟩ := Token.of_kind_identifier named
  obtain rfl := Token.of_kind_literal colon
  obtain ⟨base, rfl⟩ := Token.of_kind_identifier based
  refine ⟨⟨name, some base, ms⟩, ?_, (Except.ok.inj made).symm⟩
  simp [Source.tokens]

theorem rules_keep : ∀ rule ∈ grammar.rules, Keeps rule := by
  intro rule member
  rcases List.mem_append.mp member with atom | other
  · obtain ⟨w, known, rfl⟩ := List.mem_map.mp atom
    exact typeAtom_keeps (typeAtoms_isAtom known)
  · simp only [List.mem_cons, List.not_mem_nil, or_false] at other
    rcases other with rfl | rfl | rfl | rfl | rfl | rfl | rfl | rfl | rfl | rfl | rfl | rfl | rfl |
      rfl | rfl | rfl | rfl
    · exact primitive_more_keeps
    · exact primitive_keeps
    · exact type_primitive_keeps
    · exact type_identifier_keeps
    · exact argument_keeps
    · exact argumentList_more_keeps
    · exact argumentList_keeps
    · exact argumentList_empty_keeps
    · exact method_keeps
    · exact declaration_keeps
    · exact empty_keeps
    · exact declarationList_more_keeps
    · exact declarationList_keeps
    · exact declarationList_empty_keeps
    · exact scope_keeps
    · exact interfaceDeclaration_keeps
    · exact interfaceDeclaration_base_keeps

/-- What the parser accepts is the tree of a written interface. -/
theorem parse_sound {tokens : List Token} {v : Value} (accepted : parse tokens = .ok v) :
    ∃ s : Source, s.tokens = tokens ∧ v = .interface s.tree := by
  have ran := parse_ran tokens
  rw [accepted] at ran
  have derived := run_sound parser_safe (parsing_start grammar parser tokens) ran
  obtain ⟨_, _, _, _, ⟨s, rfl, rfl⟩, rfl, values, rfl, rfl⟩ := derived.meant rules_keep
  obtain ⟨rfl, -⟩ := List.cons.inj values
  exact ⟨s, (List.append_nil _).symm, rfl⟩

end PBus.Idlc
