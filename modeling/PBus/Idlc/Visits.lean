import PBus.Foundation.Folding
import PBus.Foundation.Splitting
import PBus.Idlc.Cpp
import PBus.Idlc.Lexer
import PBus.Idlc.Parser
import Mathlib.Data.Finset.Basic

/-! From a text to the back end: the tree is visited, and the generator collects what it is
told. -/
namespace PBus.Idlc
open Cpp Throwing

/-- `parse`. The parser takes one token after the other, so that an error at one of them is thrown
before the lexer comes to its own. -/
def parseText (text : Str) : Except Str Value :=
  match lex text with
  | .ok tokens => parse tokens
  | .error e => do
    -- at the end of what it has been given it asks for the next token
    let _ ← (parse e.given).mapError fun what => if what = pError none then e.what else what
    .error e.what

namespace Cpp

/-- `Argument` of the back end. -/
structure ArgumentText where
  name : Str
  type : Str := []
  deps : Finset Str := ∅

/-- `end_argument_type`. -/
def ArgumentText.endArgumentType (a : ArgumentText) (type : TypeText) : ArgumentText :=
  let (text, deps) := type.mangle true
  { a with type := text, deps := a.deps ∪ deps.toFinset }

/-- `Method` of the back end. -/
structure MethodText where
  name : Str
  rtype : Option Str := none
  args : List ArgumentText := []
  deps : Finset Str := ∅

namespace MethodText

def type (m : MethodText) (t : IdlType) : Except Str MethodText := do
  let (rtype, deps) := (← typeText t).mangle false
  return { m with rtype := some rtype, deps := m.deps ∪ deps.toFinset }

def beginArgument (_ : MethodText) (name : Str) : ArgumentText := { name }

def endArgument (m : MethodText) (arg : ArgumentText) : MethodText :=
  { m with args := m.args ++ [arg] }

end MethodText

/-- `Interface` of the back end. -/
structure InterfaceText where
  name : Str
  base : Option Str
  methods : List MethodText := []
  deps : Finset Str := ∅

namespace InterfaceText

def beginMethod (_ : InterfaceText) (name : Str) : MethodText := { name }

def endMethod (i : InterfaceText) (m : MethodText) : InterfaceText :=
  { i with methods := i.methods ++ [m], deps := i.deps ∪ m.deps }

end InterfaceText

structure Generator where
  interfaces : List InterfaceText := []

namespace Generator

def beginInterface (_ : Generator) (name : Str) (base : Option Str) : InterfaceText :=
  { name, base }

def endInterface (gen : Generator) (i : InterfaceText) : Generator :=
  ⟨gen.interfaces ++ [i]⟩

end Generator
end Cpp

/-- `Argument.visit`. -/
def Argument.visit (a : Argument) (visitor : MethodText) : Except Str MethodText := do
  let arg := visitor.beginArgument a.name
  let rtype ← typeText a.type
  return visitor.endArgument (arg.endArgumentType rtype)

/-- `Method.visit`. -/
def Method.visit (m : Method) (visitor : InterfaceText) : Except Str InterfaceText := do
  let method := visitor.beginMethod m.name
  let method ← method.type m.rtype
  let method ← m.args.foldlM (fun method arg => arg.visit method) method
  return visitor.endMethod method

/-- `Interface.visit`. -/
def Interface.visit (i : Interface) (visitor : Generator) : Except Str Generator := do
  let obj := visitor.beginInterface i.name i.base
  let obj ← i.declarations.foldlM (fun obj method => method.visit obj) obj
  return visitor.endInterface obj

/-- The argument is in the method, with the text of its type. -/
structure Argument.ShownAs (a : Argument) (arg : ArgumentText) : Prop where
  name : arg.name = a.name
  type : ∃ t, typeText a.type = .ok t ∧ arg.type = (t.mangle true).1

/-- The method is in the interface, with each of its arguments once, in order. -/
structure Method.ShownAs (m : Method) (method : MethodText) : Prop where
  name : method.name = m.name
  rtype : ∃ t, typeText m.rtype = .ok t ∧ method.rtype = some (t.mangle false).1
  args : List.Forall₂ Argument.ShownAs m.args method.args

/-- The interface is in the generator, with each of its methods once, in order. -/
structure Interface.ShownAs (i : Interface) (obj : InterfaceText) : Prop where
  name : obj.name = i.name
  base : obj.base = i.base
  methods : List.Forall₂ Method.ShownAs i.declarations obj.methods

/-- The visit ends, and the generator has the interface. -/
def Generated (i : Interface) : Prop := ∃ obj, i.visit {} = .ok ⟨[obj]⟩ ∧ i.ShownAs obj

/-- The back end has a name for the type. -/
def Named (t : IdlType) : Prop := ∃ text, typeText t = .ok text

def Method.Named (m : Method) : Prop := Idlc.Named m.rtype ∧ ∀ a ∈ m.args, Idlc.Named a.type

theorem argument_collects : Folding.Collects
    (fun (method : MethodText) (a : Argument) => a.visit method) (fun a => Named a.type)
    MethodText.args Argument.ShownAs where
  ends method a := by
    rintro ⟨t, named⟩
    refine ⟨method.endArgument ((method.beginArgument a.name).endArgumentType t), ?_⟩
    rw [Argument.visit, named]
    rfl
  adds {method a method'} ran := by
    obtain ⟨t, named, rest⟩ := ok_of_bind ran
    obtain rfl := Except.ok.inj rest
    exact ⟨⟨t, named⟩, _, rfl, rfl, t, named, rfl⟩

theorem visit_keeps {method : MethodText} {a : Argument} {method' : MethodText}
    (ran : a.visit method = .ok method') :
    (method'.name, method'.rtype) = (method.name, method.rtype) := by
  obtain ⟨t, named, rest⟩ := ok_of_bind ran
  obtain rfl := Except.ok.inj rest
  rfl

theorem method_collects : Folding.Collects (fun (obj : InterfaceText) (m : Method) => m.visit obj)
    Method.Named InterfaceText.methods Method.ShownAs where
  ends obj m := by
    rintro ⟨⟨t, rtype⟩, args⟩
    let method : MethodText :=
      ⟨m.name, some (t.mangle false).1, [], ∅ ∪ (t.mangle false).2.toFinset⟩
    have typed : (obj.beginMethod m.name).type m.rtype = .ok method := by
      rw [MethodText.type, rtype]
      rfl
    obtain ⟨method', ran⟩ := argument_collects.fold_ends args method
    refine ⟨obj.endMethod method', ?_⟩
    simp only [Method.visit, typed, bind, Except.bind, ran, pure, Except.pure]
  adds {obj m obj'} ran := by
    obtain ⟨method, typed, rest⟩ := ok_of_bind ran
    obtain ⟨t, rtype, typed⟩ := ok_of_bind typed
    obtain rfl := Except.ok.inj typed
    obtain ⟨method', looped, rest⟩ := ok_of_bind rest
    obtain rfl := Except.ok.inj rest
    obtain ⟨args, added, shows, shown⟩ := argument_collects.fold_adds looped
    have kept := Folding.fold_keeps visit_keeps looped
    obtain ⟨name, result⟩ := Prod.mk.inj kept
    refine ⟨⟨⟨t, rtype⟩, args⟩, method', rfl, name, ⟨t, rtype, result⟩, ?_⟩
    rw [shows]
    exact shown

theorem endMethod_keeps {obj : InterfaceText} {m : Method} {obj' : InterfaceText}
    (ran : m.visit obj = .ok obj') : (obj'.name, obj'.base) = (obj.name, obj.base) := by
  obtain ⟨method, -, rest⟩ := ok_of_bind ran
  obtain ⟨method', -, rest⟩ := ok_of_bind rest
  obtain rfl := Except.ok.inj rest
  rfl

theorem generated_iff (i : Interface) : Generated i ↔ ∀ m ∈ i.declarations, m.Named := by
  constructor
  · rintro ⟨obj, ran, -⟩
    obtain ⟨obj', looped, -⟩ := ok_of_bind ran
    exact (method_collects.fold_adds looped).1
  · intro named
    obtain ⟨obj, looped⟩ :=
      method_collects.fold_ends named (Generator.beginInterface {} i.name i.base)
    obtain ⟨-, methods, added, shown⟩ := method_collects.fold_adds looped
    have kept := Folding.fold_keeps endMethod_keeps looped
    obtain ⟨name, base⟩ := Prod.mk.inj kept
    refine ⟨obj, ?_, name, base, ?_⟩
    · simp only [Interface.visit, looped, bind, Except.bind, pure, Except.pure]
      rfl
    · rw [added]
      exact shown

/-- `Type.type` returns if there is something behind the last dot. -/
theorem type_ends (mods : List Str) (last : Str) :
    (∃ t, TypeText.type mods (some last) = .ok t) ↔
      join [' '] (mods ++ [last]) ≠ [] ∧ (join [' '] (mods ++ [last])).getLast? ≠ some '.' := by
  rw [← not_or, ← Splitting.getLastD_splitOn_eq_nil]
  constructor
  · rintro ⟨t, made⟩ empty
    obtain ⟨last', first, ⟨⟩, fullname, name, head, -⟩ := type_spec made
    rw [name, fullname] at head
    change (List.getLastD _ []).head? = _ at head
    rw [empty] at head
    contradiction
  · intro some'
    obtain ⟨first, rest, name⟩ := List.exists_cons_of_ne_nil some'
    simp only [TypeText.type, splitType, name, List.head?_cons]
    exact ⟨_, rfl⟩

namespace SourceType

/-- Not only modifiers, and nothing that ends with a dot. -/
def HasName : SourceType → Prop
  | .named name => name.text.getLast? ≠ some '.'
  | .primitive p => bases p.atoms ≠ []

theorem named_iff (s : SourceType) : Named s.tree ↔ s.HasName := by
  cases s with
  | named name =>
    have nonempty : name.text ≠ [] := by
      obtain ⟨c, first, -⟩ := name.start
      rintro empty
      rw [empty] at first
      contradiction
    have alone : join [' '] ([] ++ [name.text]) = name.text := List.intercalate_singleton
    change (∃ t, TypeText.type [] (some name.text) = .ok t) ↔ _
    rw [type_ends, alone]
    exact and_iff_right nonempty
  | primitive p =>
    cases found : bases p.atoms with
    | nil =>
      have none' : p.tree.type = none := by rw [p.tree_eq, atomsTree_type, found]; rfl
      refine iff_of_false ?_ (not_not_intro found)
      rintro ⟨t, made⟩
      change TypeText.type _ p.tree.type = _ at made
      rw [none'] at made
      contradiction
    | cons w ws =>
      have type : p.tree.type = some w.text := by rw [p.tree_eq, atomsTree_type, found]; rfl
      refine iff_of_true ?_ (by rw [HasName, found]; exact List.cons_ne_nil _ _)
      change ∃ t, TypeText.type p.tree.mods p.tree.type = .ok t
      obtain ⟨before, text⟩ := suffix_join [' '] p.tree.mods w.text
      have some' : w.text ≠ [] := by cases w <;> decide
      rw [type, type_ends, ← text, List.getLast?_append_of_ne_nil _ some']
      refine ⟨List.append_ne_nil_of_right_ne_nil _ some', ?_⟩
      cases w <;> decide

end SourceType

def Source.types (s : Source) : List SourceType :=
  s.methods.flatMap fun m => m.type :: m.arguments.map SourceArgument.type

theorem generated_source_iff (s : Source) : Generated s.tree ↔ ∀ t ∈ s.types, t.HasName := by
  have method (m : SourceMethod) :
      m.tree.Named ↔ ∀ t ∈ m.type :: m.arguments.map SourceArgument.type, t.HasName := by
    simp [Method.Named, SourceMethod.tree, SourceArgument.tree, SourceType.named_iff]
  rw [generated_iff, Source.types, List.forall_mem_flatMap]
  change (∀ m ∈ s.methods.map SourceMethod.tree, _) ↔ _
  rw [List.forall_mem_map]
  exact forall₂_congr fun m _ => method m

/-- Whatever the parser makes of the text is a tree that is generated. -/
def Generates (text : Str) : Prop :=
  ∀ v, parseText text = .ok v → ∃ tree, v = .interface tree ∧ Generated tree

theorem parseText_iff (text : Str) (v : Value) : parseText text = .ok v ↔
    ∃ s : Source, lex text = .ok s.tokens ∧ v = .interface s.tree := by
  unfold parseText
  cases read : lex text with
  | ok tokens =>
    refine (parse_iff tokens v).trans (exists_congr fun s => and_congr_left' ?_)
    rw [Except.ok.injEq, eq_comm]
  | error e =>
    refine iff_of_false (fun accepted => ?_) (by simp)
    obtain ⟨_, _, last⟩ := ok_of_bind accepted
    contradiction

/-- What is accepted is generated if every type has a name, and only then. -/
theorem generates_iff (text : Str) : Generates text ↔
    ∀ s : Source, lex text = .ok s.tokens → ∀ t ∈ s.types, t.HasName := by
  constructor
  · intro claim s read
    obtain ⟨tree, same, generated⟩ := claim _ ((parseText_iff _ _).mpr ⟨s, read, rfl⟩)
    obtain rfl := Value.interface.inj same
    exact (generated_source_iff s).mp generated
  · intro named v accepted
    obtain ⟨s, read, rfl⟩ := (parseText_iff _ _).mp accepted
    exact ⟨s.tree, rfl, (generated_source_iff s).mpr (named s read)⟩

theorem parseText_spell (s : Source) : parseText (spell s.tokens) = .ok (.interface s.tree) :=
  (parseText_iff _ _).mpr ⟨s, lex_spell s.tokens, rfl⟩

/-- `unsigned` alone is accepted as a type, and so is a name that ends with a dot, and the back
end throws at both. -/
theorem nameless_types_throw :
    let bare : Str := "interface A \x7b unsigned f ( ) ; \x7d ".toList
    let dotted : Str := "interface A \x7b a. f ( ) ; \x7d ".toList
    let method (rtype : IdlType) : Interface := ⟨"A".toList, none, [⟨rtype, "f".toList, []⟩]⟩
    let unsigned := method ⟨["unsigned".toList], none⟩
    let a := method ⟨[], some "a.".toList⟩
    parseText bare = .ok (.interface unsigned) ∧ unsigned.visit {} =
      .error "sequence item 1: expected str instance, NoneType found".toList ∧
    ¬ Generates bare ∧ parseText dotted = .ok (.interface a) ∧
    a.visit {} = .error "string index out of range".toList ∧ ¬ Generates dotted := by
  intro bare dotted method unsigned a
  let source (type : SourceType) : Source := ⟨.ofText "A".toList (by decide +kernel), none,
    [⟨type, .ofText "f".toList (by decide +kernel), [], false, by simp⟩]⟩
  let first := source (.primitive ⟨[.unsigned], by decide, by decide, by decide⟩)
  let second := source (.named (.ofText "a.".toList (by decide +kernel)))
  have bareText : spell first.tokens = bare := by decide +kernel
  have dottedText : spell second.tokens = dotted := by decide +kernel
  have bareRead : parseText bare = .ok (.interface unsigned) := bareText ▸ parseText_spell first
  have dottedRead : parseText dotted = .ok (.interface a) := dottedText ▸ parseText_spell second
  have bareThrew : (unsigned.visit {}) =
    .error "sequence item 1: expected str instance, NoneType found".toList := rfl
  have dottedThrew : (a.visit {}) = .error "string index out of range".toList := rfl
  have throws {text : Str} {i : Interface} {e : Str}
      (accepted : parseText text = .ok (.interface i)) (threw : i.visit {} = .error e) :
      ¬ Generates text := by
    intro claim
    obtain ⟨tree, same, obj, ran, -⟩ := claim _ accepted
    obtain rfl := Value.interface.inj same
    rw [threw] at ran
    contradiction
  exact ⟨bareRead, bareThrew, throws bareRead bareThrew, dottedRead, dottedThrew,
    throws dottedRead dottedThrew⟩

end PBus.Idlc
