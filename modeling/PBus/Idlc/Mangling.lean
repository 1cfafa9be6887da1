import PBus.Idlc.Cpp

/-! The types of the language in result and argument position. -/
namespace PBus.Idlc
open Cpp

namespace SourceType

/-- The type is `string`, or a name that ends with it. -/
def IsString : SourceType → Prop
  | .named name => (splitType name.text).2.2 = "string".toList
  | .primitive p => p.atoms = [.string]

instance : DecidablePred IsString
  | .named _ => inferInstanceAs (Decidable (_ = _))
  | .primitive _ => inferInstanceAs (Decidable (_ = _))

theorem fullname_parts {s : SourceType} {t : TypeText} (made : typeText s.tree = .ok t) :
    ∃ last, s.tree.type = some last ∧ t.fullname = join [' '] (s.tree.mods ++ [last]) ∧
      t.name = (splitType t.fullname).2.2 := by
  obtain ⟨last, _, type, fullname, name, -⟩ := type_spec made
  exact ⟨last, type, fullname, name⟩

theorem foreign_parts {s : SourceType} {c : Char} (foreign : Foreign c) :
    (∀ part ∈ s.tree.mods, c ∉ part) ∧ ∀ last, s.tree.type = some last → c ∉ last := by
  cases s with
  | named name =>
    refine ⟨fun part member => absurd member List.not_mem_nil, ?_⟩
    rintro last ⟨⟩
    exact name.notMem_text foreign
  | primitive p =>
    constructor
    · intro part member
      obtain ⟨w, -, rfl⟩ := List.mem_map.mp member
      exact w.notMem_text foreign
    · intro last found
      obtain ⟨w, -, rfl⟩ := Option.map_eq_some_iff.mp found
      exact w.notMem_text foreign

theorem plain {s : SourceType} {t : TypeText} (made : typeText s.tree = .ok t) :
    t.fullname.getLast? ≠ some '&' := by
  obtain ⟨last, type, fullname, -⟩ := fullname_parts made
  obtain ⟨mods, base⟩ := s.foreign_parts (c := '&') rfl
  intro ends
  have member := List.mem_of_getLast? ends
  rw [fullname] at member
  rcases mem_join member with between | ⟨part, parts, here⟩
  · exact absurd between (by decide)
  · rcases List.mem_append.mp parts with modifier | type'
    · exact mods part modifier here
    · exact base last type (List.mem_singleton.mp type' ▸ here)

theorem splitType_dotFree {text : Str} (dotFree : '.' ∉ text) : (splitType text).2.2 = text := by
  have whole : text.splitOn '.' = [text] := List.splitOn_eq_singleton dotFree
  simp only [splitType, whole, List.getLastD_cons, List.getLastD_nil]

theorem name_primitive {p : Primitive} {t : TypeText}
    (made : typeText (SourceType.primitive p).tree = .ok t) :
    t.name = "string".toList ↔ p.atoms = [.string] := by
  obtain ⟨last, type, fullname, name⟩ := fullname_parts made
  obtain ⟨base, found, text⟩ := Option.map_eq_some_iff.mp type
  have dotFree : '.' ∉ t.fullname := by
    have word (w : Word) : '.' ∉ w.text := by cases w <;> decide +kernel
    rw [fullname]
    intro member
    rcases mem_join member with between | ⟨part, parts, here⟩
    · exact absurd between (by decide)
    · rcases List.mem_append.mp parts with modifier | type'
      · obtain ⟨w, -, rfl⟩ := List.mem_map.mp modifier
        exact word w here
      · rw [List.mem_singleton.mp type', ← text] at here
        exact word base here
  rw [name, splitType_dotFree dotFree, fullname]
  constructor
  · intro string
    have none' : (p.atoms.filter Word.isModifier).map Word.text = [] := by
      by_contra some'
      have blank := sep_mem_join ' ' some' last
      change ' ' ∈ join [' '] ((SourceType.primitive p).tree.mods ++ [last]) at blank
      rw [string] at blank
      exact absurd blank (by decide)
    have bases : ∀ w ∈ p.atoms, w.isModifier = false := by
      have filtered := List.map_eq_nil_iff.mp none'
      simpa [List.filter_eq_nil_iff] using filtered
    have all : p.atoms.filter (fun w => !w.isModifier) = p.atoms := by
      rw [List.filter_eq_self]
      intro w hw
      rw [bases w hw]
      rfl
    have single := p.single
    rw [all] at single
    obtain ⟨w, atoms⟩ : ∃ w, p.atoms = [w] :=
      List.length_eq_one_iff.mp (Nat.le_antisymm single (List.length_pos_iff.mpr p.nonempty))
    have first : w = base := by
      rw [atoms, List.find?_singleton] at found
      split at found
      · exact Option.some.inj found
      · contradiction
    change join [' '] ((p.atoms.filter Word.isModifier).map Word.text ++ [last]) = _ at string
    rw [none', List.nil_append, join, List.intercalate_singleton, ← text] at string
    rw [atoms, first, Word.text_injective (string.trans (show _ = Word.text .string from rfl))]
  · intro atoms
    have tree : (SourceType.primitive p).tree = ⟨[], some "string".toList⟩ := by
      change (⟨_, _⟩ : IdlType) = _
      rw [atoms]
      rfl
    rw [tree] at type ⊢
    obtain rfl := Option.some.inj type
    rfl

theorem name_named {name : Identifier} {t : TypeText}
    (made : typeText (SourceType.named name).tree = .ok t) :
    t.name = (splitType name.text).2.2 := by
  obtain ⟨last, type, fullname, bare⟩ := fullname_parts made
  obtain rfl := Option.some.inj type
  have alone : join [' '] ((SourceType.named name).tree.mods ++ [name.text]) = name.text :=
    List.intercalate_singleton
  rw [bare, fullname, alone]

end SourceType
open SourceType

/-- The text of a result type and that of the argument type agree for every type of the
language but `string` and the names that end with it. -/
theorem result_argument_agree_iff (s : SourceType) {t : TypeText}
    (made : typeText s.tree = .ok t) : Agrees t ↔ ¬ s.IsString := by
  rw [agrees_iff made (plain made)]
  cases s with
  | named name => rw [name_named made]; rfl
  | primitive p => rw [Ne, name_primitive made]; rfl

/-- An interface in a package is passed and returned as the same pointer. -/
theorem interface_agrees :
    let object : Identifier := .ofText "core.Object".toList (by decide +kernel)
    ∃ t, typeText (SourceType.named object).tree = .ok t ∧ Agrees t := by
  intro object
  have made : typeText (SourceType.named object).tree = .ok
      ⟨"core.Object".toList, "Object".toList, "core".toList, "core".toList, true, true⟩ := by
    decide +kernel
  exact ⟨_, made, (result_argument_agree_iff (.named object) made).mpr (by decide +kernel)⟩

/-- A `string` argument is a `std::string`, and a `string` result is not. -/
theorem string_disagrees :
    let string : SourceType := .primitive ⟨[.string], by decide, by decide, by decide⟩
    ∃ t, typeText string.tree = .ok t ∧ t.mangle true = ("const std::string &".toList, []) ∧
      t.mangle false = ("string".toList, []) ∧ ¬ Agrees t := by
  intro string
  have made : typeText string.tree = .ok
      ⟨"string".toList, "string".toList, [], "std".toList, true, false⟩ := by decide +kernel
  refine ⟨_, made, by decide +kernel, by decide +kernel, ?_⟩
  rintro ⟨texts, -⟩
  exact absurd texts (by decide +kernel)

end PBus.Idlc
