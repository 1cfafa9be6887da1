import PBus.ClassId

/-! The IDL compiler: the words of its language and the tree of an interface, `idl/__init__.py`. -/
namespace PBus.Idlc

/-- `reserved`. -/
inductive Word where
  | interface
  | string
  | unsigned
  | signed
  | void
  | int
  | short
  | long
  | byte
  | char
  deriving DecidableEq, Repr

namespace Word

def text : Word → Str
  | interface => "interface".toList
  | string => "string".toList
  | unsigned => "unsigned".toList
  | signed => "signed".toList
  | void => "void".toList
  | int => "int".toList
  | short => "short".toList
  | long => "long".toList
  | byte => "byte".toList
  | char => "char".toList

/-- The words `Type.add` collects in `mods`. -/
def isModifier : Word → Bool
  | unsigned | signed | short | long => true
  | _ => false

/-- The words of `type_atom`. -/
def isAtom : Word → Bool
  | interface => false
  | _ => true

end Word

/-- What `t_IDENTIFIER` can begin with. -/
def isIdentifierStart (c : Char) : Bool := c.isAlpha || c == '$' || c == '_'

/-- And go on with. -/
def isIdentifierRest (c : Char) : Bool := isIdentifierStart c || c.isDigit || c == '.'

/-- A text that `t_IDENTIFIER` matches and that is not reserved. -/
structure Identifier where
  text : Str
  start : ∃ c ∈ text.head?, isIdentifierStart c = true
  rest : ∀ c ∈ text, isIdentifierRest c = true
  unreserved : ∀ w : Word, w.text ≠ text
  deriving DecidableEq

def Word.all : List Word :=
  [.interface, .string, .unsigned, .signed, .void, .int, .short, .long, .byte, .char]

theorem Word.mem_all (w : Word) : w ∈ all := by
  cases w <;> decide

namespace Identifier

/-- What an identifier must meet, computed. -/
def check (text : Str) : Bool :=
  text.head?.any isIdentifierStart && text.all isIdentifierRest &&
    Word.all.all fun w => w.text ≠ text

def ofText (text : Str) (checked : check text = true) : Identifier where
  text
  start := by
    have first := (Bool.and_eq_true_iff.mp (Bool.and_eq_true_iff.mp checked).1).1
    obtain ⟨c, head, start⟩ := (Option.any_eq_true _ _).mp first
    exact ⟨c, head, start⟩
  rest := List.all_eq_true.mp (Bool.and_eq_true_iff.mp (Bool.and_eq_true_iff.mp checked).1).2
  unreserved w := by
    have other := List.all_eq_true.mp (Bool.and_eq_true_iff.mp checked).2 w w.mem_all
    exact of_decide_eq_true other

end Identifier

/-- `set(['unsigned', 'signed', 'short', 'long'])`. -/
def modifiers : List Str :=
  ["unsigned".toList, "signed".toList, "short".toList, "long".toList]

/-- `idl.Type`. -/
structure IdlType where
  mods : List Str := []
  type : Option Str := none
  deriving DecidableEq, Repr

/-- `Type.add`. -/
def IdlType.add (t : IdlType) (type : Str) : Except Str IdlType :=
  if type ∈ modifiers then .ok { t with mods := t.mods ++ [type] }
  else
    match t.type with
    | some other => .error ("duplicate type ".toList ++ type ++ " in ".toList ++ other)
    | none => .ok { t with type := some type }

/-- `idl.Argument`. -/
structure Argument where
  type : IdlType
  name : Str
  deriving DecidableEq, Repr

/-- `idl.Method`. -/
structure Method where
  rtype : IdlType
  name : Str
  args : List Argument
  deriving DecidableEq, Repr

/-- `idl.Interface`. -/
structure Interface where
  name : Str
  base : Option Str := none
  declarations : List Method := []
  deriving DecidableEq, Repr

/-- A run of atoms, at most one of which is not a modifier. -/
structure Primitive where
  atoms : List Word
  nonempty : atoms ≠ []
  atom : ∀ w ∈ atoms, w.isAtom = true
  single : (atoms.filter fun w => !w.isModifier).length ≤ 1
  deriving DecidableEq

inductive SourceType where
  | named (name : Identifier)
  | primitive (p : Primitive)
  deriving DecidableEq

/-- The modifiers in their order, and the atom that is none. -/
def Primitive.tree (p : Primitive) : IdlType where
  mods := (p.atoms.filter Word.isModifier).map Word.text
  type := (p.atoms.find? fun w => !w.isModifier).map Word.text

def SourceType.tree : SourceType → IdlType
  | .named name => { type := some name.text }
  | .primitive p => p.tree

theorem Word.text_injective : Function.Injective Word.text := by
  intro v w same
  cases v <;> cases w <;> first | rfl | exact absurd same (by decide +kernel)

theorem Word.text_mem_modifiers (w : Word) : w.text ∈ modifiers ↔ w.isModifier = true := by
  cases w <;> decide +kernel

theorem Identifier.text_notMem_modifiers (name : Identifier) : name.text ∉ modifiers := by
  simp only [modifiers, List.mem_cons, List.not_mem_nil, or_false, not_or]
  exact ⟨(name.unreserved .unsigned).symm, (name.unreserved .signed).symm,
    (name.unreserved .short).symm, (name.unreserved .long).symm⟩

theorem IdlType.add_modifier (t : IdlType) {w : Word} (modifier : w.isModifier = true) :
    t.add w.text = .ok { t with mods := t.mods ++ [w.text] } := by
  rw [add, if_pos (w.text_mem_modifiers.mpr modifier)]

theorem IdlType.add_base {t : IdlType} (none' : t.type = none) {w : Word}
    (base : w.isModifier = false) : t.add w.text = .ok { t with type := some w.text } := by
  have other : w.text ∉ modifiers := by
    rw [w.text_mem_modifiers, base]
    exact Bool.false_ne_true
  rw [add, if_neg other, none']

theorem IdlType.add_second {t : IdlType} {other : Str} (some' : t.type = some other) {w : Word}
    (base : w.isModifier = false) :
    t.add w.text = .error ("duplicate type ".toList ++ w.text ++ " in ".toList ++ other) := by
  have different : w.text ∉ modifiers := by
    rw [w.text_mem_modifiers, base]
    exact Bool.false_ne_true
  rw [add, if_neg different, some']

theorem IdlType.add_identifier (name : Identifier) :
    IdlType.add {} name.text = .ok { type := some name.text } := by
  rw [add, if_neg name.text_notMem_modifiers]

/-- No text of the language has this character. -/
def Foreign (c : Char) : Prop := isIdentifierRest c = false

theorem Word.notMem_text {c : Char} (foreign : Foreign c) (w : Word) : c ∉ w.text := by
  intro member
  have all : w.text.all isIdentifierRest = true := by cases w <;> decide +kernel
  have known := List.all_eq_true.mp all c member
  exact absurd (known.symm.trans foreign) (by decide)

theorem Identifier.notMem_text {c : Char} (foreign : Foreign c) (name : Identifier) :
    c ∉ name.text := fun member =>
  absurd ((name.rest c member).symm.trans foreign) (by decide)

end PBus.Idlc
