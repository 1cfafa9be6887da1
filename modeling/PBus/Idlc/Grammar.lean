import PBus.Foundation.LALR.Ending
import PBus.Idlc.Tree

/-! `idl/grammar.py`: the tokens, the rules with what they make, and the parser that PLY builds
of them. The line in the text of a syntax error is left out. -/
namespace PBus.Idlc
open LALR

/-- `literals`. -/
inductive Literal where
  | openBrace
  | closeBrace
  | openParen
  | closeParen
  | comma
  | semicolon
  | colon
  deriving DecidableEq, Repr

def Literal.char : Literal → Char
  | openBrace => '\x7b'
  | closeBrace => '\x7d'
  | openParen => '('
  | closeParen => ')'
  | comma => ','
  | semicolon => ';'
  | colon => ':'

/-- `tokens`, and the literals, which stand for themselves. -/
inductive Kind where
  | identifier
  | word (w : Word)
  | literal (l : Literal)
  deriving DecidableEq, Repr

inductive Token where
  | identifier (name : Identifier)
  | word (w : Word)
  | literal (l : Literal)
  deriving DecidableEq

namespace Token

def kind : Token → Kind
  | identifier _ => .identifier
  | word w => .word w
  | literal l => .literal l

/-- `t.value`. -/
def text : Token → Str
  | identifier name => name.text
  | word w => w.text
  | literal l => [l.char]

end Token

inductive Nonterminal where
  | typeAtom
  | primitive
  | type
  | argument
  | argumentList
  | method
  | declaration
  | empty
  | declarationList
  | scope
  | interfaceDeclaration
  deriving DecidableEq, Repr

/-- What `p[0]` can be. -/
inductive Value where
  | none
  | text (s : Str)
  | type (t : IdlType)
  | argument (a : Argument)
  | arguments (args : List Argument)
  | method (m : Method)
  | methods (ms : List Method)
  | interface (i : Interface)
  deriving DecidableEq

/-- For values that no rule has. -/
def unexpected : Except Str Value := .error "unexpected value".toList

def pTypeAtom : List Value → Except Str Value
  | [atom] => .ok atom
  | _ => unexpected

def pPrimitive : List Value → Except Str Value
  | [.text atom] => (IdlType.add {} atom).map .type
  | [.type t, .text atom] => (t.add atom).map .type
  | _ => unexpected

def pType : List Value → Except Str Value
  | [.type t] => .ok (.type t)
  | [.text name] => (IdlType.add {} name).map .type
  | _ => unexpected

def pArgument : List Value → Except Str Value
  | [.type t, .text name] => .ok (.argument ⟨t, name⟩)
  | _ => unexpected

def pArgumentList : List Value → Except Str Value
  | [.arguments args, _, .argument arg] => .ok (.arguments (args ++ [arg]))
  | [.argument arg] => .ok (.arguments [arg])
  | [.none] => .ok (.arguments [])
  | _ => unexpected

def pMethod : List Value → Except Str Value
  | [.type rtype, .text name, _, .arguments args, _] => .ok (.method ⟨rtype, name, args⟩)
  | _ => unexpected

def pDeclaration : List Value → Except Str Value
  | [method] => .ok method
  | _ => unexpected

def pEmpty (_ : List Value) : Except Str Value := .ok .none

def pDeclarationList : List Value → Except Str Value
  | [.methods declarations, .method m, _] => .ok (.methods (declarations ++ [m]))
  | [.method m, _] => .ok (.methods [m])
  | [_] => .ok (.methods [])
  | _ => .error "unhandled declaration_list".toList

def pScope : List Value → Except Str Value
  | [_, declarations, _] => .ok declarations
  | _ => unexpected

def pInterfaceDeclaration : List Value → Except Str Value
  | [_, .text name, .methods declarations] => .ok (.interface ⟨name, none, declarations⟩)
  | [_, .text name, _, .text base, .methods declarations] =>
    .ok (.interface ⟨name, some base, declarations⟩)
  | _ => .error "invalid argument count".toList

/-- In the order of the rule for them. -/
def typeAtoms : List Word := [.string, .signed, .unsigned, .int, .long, .byte, .char, .short, .void]

section Rules

def word (w : Word) : LALR.Symbol Kind Nonterminal := .terminal (.word w)
def identifier : LALR.Symbol Kind Nonterminal := .terminal .identifier
def literal (l : Literal) : LALR.Symbol Kind Nonterminal := .terminal (.literal l)
def sort (n : Nonterminal) : LALR.Symbol Kind Nonterminal := .nonterminal n

/-- The rules in the order of the file. -/
def rules : List (Rule Kind Nonterminal Value Str) :=
  typeAtoms.map (fun w => ⟨.typeAtom, [word w], pTypeAtom⟩) ++ [
    ⟨.primitive, [sort .primitive, sort .typeAtom], pPrimitive⟩,
    ⟨.primitive, [sort .typeAtom], pPrimitive⟩,
    ⟨.type, [sort .primitive], pType⟩,
    ⟨.type, [identifier], pType⟩,
    ⟨.argument, [sort .type, identifier], pArgument⟩,
    ⟨.argumentList, [sort .argumentList, literal .comma, sort .argument], pArgumentList⟩,
    ⟨.argumentList, [sort .argument], pArgumentList⟩,
    ⟨.argumentList, [sort .empty], pArgumentList⟩,
    ⟨.method, [sort .type, identifier, literal .openParen, sort .argumentList,
      literal .closeParen], pMethod⟩,
    ⟨.declaration, [sort .method], pDeclaration⟩,
    ⟨.empty, [], pEmpty⟩,
    ⟨.declarationList, [sort .declarationList, sort .declaration, literal .semicolon],
      pDeclarationList⟩,
    ⟨.declarationList, [sort .declaration, literal .semicolon], pDeclarationList⟩,
    ⟨.declarationList, [sort .empty], pDeclarationList⟩,
    ⟨.scope, [literal .openBrace, sort .declarationList, literal .closeBrace], pScope⟩,
    ⟨.interfaceDeclaration, [word .interface, identifier, sort .scope], pInterfaceDeclaration⟩,
    ⟨.interfaceDeclaration, [word .interface, identifier, literal .colon, identifier, sort .scope],
      pInterfaceDeclaration⟩]

end Rules

/-- `p_error`. At the end of the input there is no token to take the value of. -/
def pError : Option Token → Str
  | some p => "Syntax error at '".toList ++ p.text ++ "'".toList
  | none => "'NoneType' object has no attribute 'value'".toList

def grammar : Grammar Kind Nonterminal Value Str Token where
  rules
  start := .interfaceDeclaration
  kind := Token.kind
  value token := .text token.text
  syntaxError := pError

/-- `yacc.yacc()`. There are fewer states than that. -/
def parser : Table Kind Nonterminal := table grammar.productions 50

/-- `parser.parse`, with steps for every token. -/
def parse (tokens : List Token) : Except Str Value :=
  (run grammar parser (20 * tokens.length + 1) (start tokens)).getD unexpected

section Parsetab

/-- Reduce where another atom or a name can follow. -/
def onNames (rule : Nat) : List (Option Kind × Action) :=
  typeAtoms.map (fun w => (some (.word w), .reduce rule)) ++ [(some .identifier, .reduce rule)]

/-- The state behind an atom. -/
def atomState (w : Word) : Nat := 7 + typeAtoms.idxOf w

def shiftAtoms : List (Option Kind × Action) :=
  typeAtoms.map fun w => (some (.word w), .shift (atomState w))

def onTypes : List (Option Kind × Action) := shiftAtoms ++ [(some .identifier, .shift 18)]

def on (l : Literal) (action : Action) : Option Kind × Action := (some (.literal l), action)

def parsetab : Table Kind Nonterminal := [
  ⟨[(some (.word .interface), .shift 2)], [(.interfaceDeclaration, 1)]⟩,
  ⟨[(none, .accept)], []⟩,
  ⟨[(some .identifier, .shift 3)], []⟩,
  ⟨[on .openBrace (.shift 4), on .colon (.shift 6)], [(.scope, 5)]⟩,
  ⟨onTypes ++ [on .closeBrace (.reduce 20)], [(.typeAtom, 16), (.primitive, 17), (.type, 19),
    (.method, 20), (.declaration, 21), (.empty, 22), (.declarationList, 23)]⟩,
  ⟨[(none, .reduce 25)], []⟩,
  ⟨[(some .identifier, .shift 24)], []⟩,
  ⟨onNames 1, []⟩, ⟨onNames 2, []⟩, ⟨onNames 3, []⟩, ⟨onNames 4, []⟩, ⟨onNames 5, []⟩,
  ⟨onNames 6, []⟩, ⟨onNames 7, []⟩, ⟨onNames 8, []⟩, ⟨onNames 9, []⟩,
  ⟨onNames 11, []⟩,
  ⟨shiftAtoms ++ [(some .identifier, .reduce 12)], [(.typeAtom, 25)]⟩,
  ⟨[(some .identifier, .reduce 13)], []⟩,
  ⟨[(some .identifier, .shift 26)], []⟩,
  ⟨[on .semicolon (.reduce 19)], []⟩,
  ⟨[on .semicolon (.shift 27)], []⟩,
  ⟨onNames 23 ++ [on .closeBrace (.reduce 23)], []⟩,
  ⟨onTypes ++ [on .closeBrace (.shift 29)], [(.typeAtom, 16), (.primitive, 17), (.type, 19),
    (.method, 20), (.declaration, 28)]⟩,
  ⟨[on .openBrace (.shift 4)], [(.scope, 30)]⟩,
  ⟨onNames 10, []⟩,
  ⟨[on .openParen (.shift 31)], []⟩,
  ⟨onNames 22 ++ [on .closeBrace (.reduce 22)], []⟩,
  ⟨[on .semicolon (.shift 32)], []⟩,
  ⟨[(none, .reduce 24)], []⟩,
  ⟨[(none, .reduce 26)], []⟩,
  ⟨onTypes ++ [on .comma (.reduce 20), on .closeParen (.reduce 20)], [(.typeAtom, 16),
    (.primitive, 17), (.type, 33), (.argument, 34), (.empty, 35), (.argumentList, 36)]⟩,
  ⟨onNames 21 ++ [on .closeBrace (.reduce 21)], []⟩,
  ⟨[(some .identifier, .shift 37)], []⟩,
  ⟨[on .comma (.reduce 16), on .closeParen (.reduce 16)], []⟩,
  ⟨[on .comma (.reduce 17), on .closeParen (.reduce 17)], []⟩,
  ⟨[on .comma (.shift 38), on .closeParen (.shift 39)], []⟩,
  ⟨[on .comma (.reduce 14), on .closeParen (.reduce 14)], []⟩,
  ⟨onTypes, [(.typeAtom, 16), (.primitive, 17), (.type, 33), (.argument, 40)]⟩,
  ⟨[on .semicolon (.reduce 18)], []⟩,
  ⟨[on .comma (.reduce 15), on .closeParen (.reduce 15)], []⟩]

theorem parser_eq : parser = parsetab := by decide +kernel

end Parsetab

theorem parser_safe : safe grammar parser = true := by
  rw [parser_eq]
  decide +kernel

/-- A symbol is lighter than what it is made of, and the nonterminal that is made of nothing is
lighter than the states behind the braces and the parentheses that open. -/
def weights : Weights Kind Nonterminal where
  state q := if q = 4 ∨ q = 31 then 7 else 0
  symbol
    | .terminal _ => 10
    | .nonterminal .typeAtom => 9
    | .nonterminal .primitive => 8
    | .nonterminal .type => 7
    | .nonterminal .argument | .nonterminal .empty | .nonterminal .method => 6
    | .nonterminal .argumentList | .nonterminal .declaration => 5
    | .nonterminal .declarationList => 4
    | .nonterminal .scope | .nonterminal .interfaceDeclaration => 3
  token := 20

theorem parser_lighter : lighter grammar parser weights = true := by
  rw [parser_eq]
  decide +kernel

theorem parse_ran (tokens : List Token) :
    run grammar parser (20 * tokens.length + 1) (start tokens) = some (parse tokens) := by
  have enough : weights.config (start tokens : Config Kind Nonterminal Value Token) <
      20 * tokens.length + 1 := by
    change 0 + 0 + 20 * tokens.length < _
    omega
  obtain ⟨result, ran⟩ := run_ends parser_safe parser_lighter
    (parsing_start grammar parser tokens) enough
  rw [parse, ran]
  rfl

end PBus.Idlc
