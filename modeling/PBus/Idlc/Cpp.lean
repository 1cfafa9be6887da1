import PBus.Idlc.Tree

/-! The C++ back end, `idl/lang/cpp/__init__.py`: the text it makes of a type. Its `upper` and
`isupper` meet ASCII characters only. -/
namespace PBus.Idlc

/-- `sep.join(parts)`. -/
def join (sep : Str) (parts : List Str) : Str := sep.intercalate parts

theorem mem_join {sep : Str} {parts : List Str} {c : Char} (member : c ∈ join sep parts) :
    c ∈ sep ∨ ∃ part ∈ parts, c ∈ part := by
  induction parts with
  | nil => exact absurd member List.not_mem_nil
  | cons part parts ih =>
    cases parts with
    | nil =>
      rw [join, List.intercalate_singleton] at member
      exact .inr ⟨part, List.mem_cons_self, member⟩
    | cons next parts =>
      rw [join, List.intercalate_cons_cons, List.mem_append, List.mem_append] at member
      rcases member with (first | between) | later
      · exact .inr ⟨part, List.mem_cons_self, first⟩
      · exact .inl between
      · rcases ih later with between | ⟨part', later', here⟩
        · exact .inl between
        · exact .inr ⟨part', List.mem_cons_of_mem _ later', here⟩

theorem join_cons (sep part : Str) (parts : List Str) (last : Str) :
    join sep (part :: (parts ++ [last])) = part ++ sep ++ join sep (parts ++ [last]) := by
  have some' : parts ++ [last] ≠ [] := by simp
  rw [join, List.intercalate_cons_of_ne_nil some', join]

theorem sep_mem_join (c : Char) {before : List Str} (some' : before ≠ []) (last : Str) :
    c ∈ join [c] (before ++ [last]) := by
  cases before with
  | nil => exact absurd rfl some'
  | cons part parts =>
    rw [List.cons_append, join_cons]
    simp

theorem suffix_join (sep : Str) (parts : List Str) (last : Str) :
    last <:+ join sep (parts ++ [last]) := by
  induction parts with
  | nil => exact ⟨[], by rw [List.nil_append, List.nil_append, join, List.intercalate_singleton]⟩
  | cons part parts ih =>
    rw [List.cons_append, join_cons]
    exact ih.trans (List.suffix_append _ _)

namespace Cpp

/-- `split_type`: the package, the package as a namespace, and the bare name. -/
def splitType (typename : Str) : Str × Str × Str :=
  let comps := typename.splitOn '.'
  let package := join ['.'] comps.dropLast
  (package, package.flatMap fun c => if c = '.' then [':', ':'] else [c], comps.getLastD [])

/-- `Type` of the back end, once `type` has been called. -/
structure TypeText where
  fullname : Str
  name : Str
  package : Str
  ns : Str
  ref : Bool
  ptr : Bool
  deriving DecidableEq, Repr

namespace TypeText

/-- `Type.type`. The `join` throws for a type without a name, the index for an empty name. -/
def type (mods : List Str) : Option Str → Except Str TypeText
  | none => .error ("sequence item ".toList ++ Nat.toDigits 10 mods.length ++
      ": expected str instance, NoneType found".toList)
  | some type =>
    let fullname := join [' '] (mods ++ [type])
    let (package, ns, name) := splitType fullname
    let isString := name = "string".toList
    match name.head? with
    | none => .error "string index out of range".toList
    | some first => .ok {
        fullname, name, package
        ns := if isString then "std".toList else ns
        ref := isString || first.isUpper
        ptr := first.isUpper }

/-- `Type.mangle`: the text and the dependencies. -/
def mangle (t : TypeText) (ref : Bool) : Str × List Str :=
  if t.ptr then
    (if t.ns ≠ [] then t.ns ++ "::I".toList ++ t.name ++ "Ptr".toList
      else "I".toList ++ t.name ++ "Ptr".toList, [t.fullname])
  else if t.ref && ref then
    (if t.ns ≠ [] then "const ".toList ++ t.ns ++ "::".toList ++ t.fullname ++ " &".toList
      else "const ".toList ++ t.fullname ++ " &".toList, [])
  else (t.fullname, [])

end TypeText

def typeText (t : IdlType) : Except Str TypeText := TypeText.type t.mods t.type

/-- A type text without a leading `const ` and a trailing ` &`. -/
def valueText (text : Str) : Str :=
  if "const ".toList <+: text ∧ " &".toList <:+ text then (text.drop 6).take (text.length - 8)
  else text

/-- As a result a type has the text it has as an argument, taken by value, and the same
dependencies. -/
def Agrees (t : TypeText) : Prop :=
  (t.mangle false).1 = valueText (t.mangle true).1 ∧ (t.mangle false).2 = (t.mangle true).2

theorem valueText_reference (text : Str) :
    valueText ("const ".toList ++ text ++ " &".toList) = text := by
  have pre : "const ".toList <+: "const ".toList ++ text ++ " &".toList := by
    rw [List.append_assoc]
    exact List.prefix_append _ _
  have post : " &".toList <:+ "const ".toList ++ text ++ " &".toList := List.suffix_append _ _
  have inner : ("const ".toList ++ text ++ " &".toList).drop 6 = text ++ " &".toList := by
    rw [List.append_assoc]
    exact @List.drop_left _ "const ".toList _
  have length : ("const ".toList ++ text ++ " &".toList).length - 8 = text.length := by
    simp only [List.length_append]
    change 6 + text.length + 2 - 8 = _
    omega
  rw [valueText, if_pos ⟨pre, post⟩, inner, length, List.take_left]

theorem valueText_value {text : Str} (value : text.getLast? ≠ some '&') :
    valueText text = text := by
  rw [valueText, if_neg]
  rintro ⟨-, before, rfl⟩
  exact value (by simp)

/-- What `Type.type` computed, if it returned. -/
theorem type_spec {mods : List Str} {type : Option Str} {t : TypeText}
    (made : TypeText.type mods type = .ok t) : ∃ last first, type = some last ∧
      t.fullname = join [' '] (mods ++ [last]) ∧
      t.name = (splitType t.fullname).2.2 ∧ t.name.head? = some first ∧
      t.ns = (if t.name = "string".toList then "std".toList else (splitType t.fullname).2.1) ∧
      t.ref = (decide (t.name = "string".toList) || first.isUpper) ∧ t.ptr = first.isUpper := by
  cases type with
  | none => contradiction
  | some last =>
    simp only [TypeText.type] at made
    split at made
    · contradiction
    next first head =>
      obtain rfl := Except.ok.inj made
      exact ⟨last, first, rfl, rfl, rfl, head, rfl, rfl, rfl⟩

theorem mangle_pointer {t : TypeText} (ptr : t.ptr = true) :
    ∃ before, ∀ ref, t.mangle ref = (before ++ "Ptr".toList, [t.fullname]) := by
  by_cases ns : t.ns ≠ []
  · refine ⟨t.ns ++ "::I".toList ++ t.name, fun ref => ?_⟩
    rw [TypeText.mangle, if_pos ptr, if_pos ns]
  · refine ⟨"I".toList ++ t.name, fun ref => ?_⟩
    rw [TypeText.mangle, if_pos ptr, if_neg ns]

theorem mangle_value {t : TypeText} (ptr : t.ptr = false) {ref : Bool}
    (value : (t.ref && ref) = false) : t.mangle ref = (t.fullname, []) := by
  rw [TypeText.mangle, ptr, value]
  rfl

theorem mangle_reference {t : TypeText} (ptr : t.ptr = false) (isRef : t.ref = true)
    (ns : t.ns ≠ []) : t.mangle true =
      ("const ".toList ++ (t.ns ++ "::".toList ++ t.fullname) ++ " &".toList, []) := by
  rw [TypeText.mangle, ptr, isRef, if_neg Bool.false_ne_true, Bool.and_self, if_pos rfl, if_pos ns]
  simp only [List.append_assoc]

/-- The two texts of a type agree unless the bare name is `string`, which gets its namespace as
an argument only. -/
theorem agrees_iff {mods : List Str} {type : Option Str} {t : TypeText}
    (made : TypeText.type mods type = .ok t) (plain : t.fullname.getLast? ≠ some '&') :
    Agrees t ↔ t.name ≠ "string".toList := by
  obtain ⟨last, first, -, -, -, head, ns, ref, ptr⟩ := type_spec made
  by_cases string : t.name = "string".toList
  · refine iff_of_false ?_ (not_not_intro string)
    have lower : first.isUpper = false := by
      rw [string] at head
      obtain rfl := Option.some.inj head
      decide
    rw [lower] at ptr
    rw [if_pos string] at ns
    have isRef : t.ref = true := by rw [ref, decide_eq_true string, Bool.true_or]
    have named : t.ns ≠ [] := by rw [ns]; decide
    rintro ⟨texts, -⟩
    rw [mangle_value ptr (Bool.and_false _), mangle_reference ptr isRef named,
      valueText_reference, ns] at texts
    have lengths := congrArg List.length texts
    rw [List.length_append] at lengths
    change t.fullname.length = 5 + _ at lengths
    omega
  · refine iff_of_true ?_ string
    cases upper : first.isUpper with
    | true =>
      obtain ⟨before, text⟩ := mangle_pointer (ptr.trans upper)
      rw [Agrees, text, text]
      refine ⟨(valueText_value ?_).symm, rfl⟩
      rw [List.getLast?_append_of_ne_nil _ (by decide)]
      decide
    | false =>
      have noRef : t.ref = false := by rw [ref, decide_eq_false string, upper, Bool.or_false]
      rw [Agrees, mangle_value (ptr.trans upper) (Bool.and_false _),
        mangle_value (ptr.trans upper) (by rw [noRef, Bool.false_and])]
      exact ⟨(valueText_value plain).symm, rfl⟩

end Cpp
end PBus.Idlc
