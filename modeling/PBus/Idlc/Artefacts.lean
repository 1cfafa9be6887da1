import PBus.Foundation.Splitting
import PBus.Idlc.Cpp
import Mathlib.Data.List.Nodup

/-! What `Generator.generate` writes for an interface: the paths of its files and the include
guards of its headers. -/
namespace PBus.Idlc
open Cpp

/-- `os.path.join(path, *parts)`. -/
def pathJoin (path : Str) (parts : List Str) : Str :=
  parts.foldl (fun path part =>
    if part.head? = some '/' then part
    else if path = [] ∨ path.getLast? = some '/' then path ++ part
    else path ++ '/' :: part) path

/-- `str.upper` on ASCII. -/
def upper (s : Str) : Str := s.map Char.toUpper

/-- `templates`. -/
inductive Template where
  | interfaceH
  | interfaceCpp
  | remoteH
  | remoteCpp
  deriving DecidableEq, Repr

namespace Template

/-- In the order of the dictionary. -/
def all : List Template := [interfaceH, interfaceCpp, remoteH, remoteCpp]

/-- The name of the file that is made of a template. -/
def mangle (name : Str) : Template → Str
  | interfaceH => 'I' :: name ++ ".h".toList
  | interfaceCpp => 'I' :: name ++ ".cpp".toList
  | remoteH => name ++ ".h".toList
  | remoteCpp => name ++ ".cpp".toList

/-- The include guard of a template that has one. -/
def guard (name : Str) : Template → Option Str
  | interfaceH => some ("PBUS_GENERATED_IDL_I".toList ++ upper name ++ "_H".toList)
  | remoteH => some ("PBUS_GENERATED_IDL_".toList ++ upper name ++ "_H".toList)
  | interfaceCpp | remoteCpp => none

end Template

structure Artefact where
  path : Str
  guard : Option Str
  deriving DecidableEq, Repr

/-- What one turn of the loop of `generate` writes. -/
def generate (dstDir interface : Str) : List Artefact :=
  let (package, _, name) := splitType interface
  let packagePath := package.splitOn '.'
  Template.all.map fun template =>
    let dstPackageDir := pathJoin dstDir packagePath
    ⟨pathJoin dstPackageDir [template.mangle name], template.guard name⟩

/-- No two of the files have one path, and no two of the headers one guard. -/
structure Apart (files : List Artefact) : Prop where
  paths : (files.map Artefact.path).Nodup
  guards : (files.filterMap Artefact.guard).Nodup

def bareName (interface : Str) : Str := (splitType interface).2.2

theorem mem_bareName {interface : Str} {c : Char} (member : c ∈ bareName interface) :
    c ∈ interface :=
  (Splitting.mem_splitOn (Splitting.getLastD_mem_splitOn '.' interface)).2 c member

theorem file_of_path {dir file : Str} (slashFree : '/' ∉ file) :
    ((pathJoin dir [file]).splitOn '/').getLast? = some file := by
  have relative : file.head? ≠ some '/' := fun first => slashFree (List.mem_of_head? first)
  simp only [pathJoin, List.foldl_cons, List.foldl_nil, if_neg relative]
  split
  next here =>
    rcases here with rfl | ends
    · rw [List.nil_append, List.splitOn_eq_singleton slashFree]
      rfl
    · obtain ⟨before, rfl⟩ := List.getLast?_eq_some_iff.mp ends
      rw [List.append_assoc]
      exact Splitting.getLast_splitOn slashFree before
  next => exact Splitting.getLast_splitOn slashFree dir

theorem mangle_slashFree {name : Str} (slashFree : '/' ∉ name) (template : Template) :
    '/' ∉ template.mangle name := by
  cases template <;> simp [Template.mangle, slashFree]

/-- The two files of a name, for each of a list of names. -/
def filesOfNames (names : List Str) : List Str :=
  names.flatMap fun name => [name ++ ".h".toList, name ++ ".cpp".toList]

theorem mem_filesOfNames {names : List Str} {file : Str} :
    file ∈ filesOfNames names ↔
      ∃ name ∈ names, file = name ++ ".h".toList ∨ file = name ++ ".cpp".toList := by
  simp [filesOfNames]

theorem header_ne_source (name name' : Str) : name ++ ".h".toList ≠ name' ++ ".cpp".toList := by
  intro same
  have last := congrArg List.getLast? same
  rw [List.getLast?_append_of_ne_nil _ (by decide), List.getLast?_append_of_ne_nil _ (by decide)]
    at last
  exact absurd last (by decide)

theorem filesOfNames_nodup {names : List Str} (distinct : names.Nodup) :
    (filesOfNames names).Nodup := by
  induction names with
  | nil => exact List.nodup_nil
  | cons name names ih =>
    obtain ⟨fresh, distinct⟩ := List.nodup_cons.mp distinct
    have rest (suffix : Str) (known : suffix = ".h".toList ∨ suffix = ".cpp".toList) :
        name ++ suffix ∉ filesOfNames names := by
      intro member
      obtain ⟨name', member', same⟩ := mem_filesOfNames.mp member
      rcases known with rfl | rfl <;> rcases same with same | same
      · exact fresh (List.append_cancel_right same ▸ member')
      · exact header_ne_source _ _ same
      · exact header_ne_source _ _ same.symm
      · exact fresh (List.append_cancel_right same ▸ member')
    change (_ :: _ :: filesOfNames names).Nodup
    rw [List.nodup_cons, List.nodup_cons, List.mem_cons]
    refine ⟨not_or.mpr ⟨header_ne_source _ _, rest _ (.inl rfl)⟩, rest _ (.inr rfl), ih distinct⟩

def names (name : Str) : List Str := ['I' :: name, name]

theorem files_eq (name : Str) :
    Template.all.map (fun template => template.mangle name) = filesOfNames (names name) := rfl

theorem guards_eq (dstDir interface : Str) :
    (generate dstDir interface).filterMap Artefact.guard =
      (names (upper (bareName interface))).map fun name =>
        "PBUS_GENERATED_IDL_".toList ++ name ++ "_H".toList := by
  have upTo : "PBUS_GENERATED_IDL_I".toList = "PBUS_GENERATED_IDL_".toList ++ ['I'] := by
    decide +kernel
  simp only [generate, Template.all, List.map_cons, List.map_nil, List.filterMap_cons,
    List.filterMap_nil, Template.guard, names, bareName, upTo, List.append_assoc,
    List.cons_append, List.nil_append]

theorem upper_cons (name : Str) : upper ('I' :: name) = 'I' :: upper name := rfl

theorem names_nodup (a b : Str) :
    (names a ++ names b).Nodup ↔ a ≠ b ∧ 'I' :: a ≠ b ∧ a ≠ 'I' :: b := by
  have own (x : Str) : 'I' :: x ≠ x := List.cons_ne_self 'I' x
  simp only [names, List.cons_append, List.nil_append, List.nodup_cons, List.mem_cons,
    List.not_mem_nil, or_false, not_or, own, List.cons.injEq, true_and, not_false_eq_true,
    List.nodup_nil, and_true]
  grind

theorem guards_nodup (dstDir a b : Str) :
    ((generate dstDir a ++ generate dstDir b).filterMap Artefact.guard).Nodup ↔
      (names (upper (bareName a)) ++ names (upper (bareName b))).Nodup := by
  rw [List.filterMap_append, guards_eq, guards_eq, ← List.map_append]
  apply List.nodup_map_iff
  intro x y same
  simpa using same

theorem paths_nodup (dstDir : Str) {a b : Str} (slashFree : '/' ∉ a) (slashFree' : '/' ∉ b)
    (distinct : (names (bareName a) ++ names (bareName b)).Nodup) :
    ((generate dstDir a ++ generate dstDir b).map Artefact.path).Nodup := by
  have files (interface : Str) (free : '/' ∉ interface) :
      (generate dstDir interface).map (fun file => (file.path.splitOn '/').getLast?) =
        (filesOfNames (names (bareName interface))).map some := by
    rw [← files_eq]
    simp only [generate, List.map_map]
    apply List.map_congr_left
    intro template _
    exact file_of_path (mangle_slashFree (fun slash => free (mem_bareName slash)) template)
  apply List.Nodup.of_map fun path => (path.splitOn '/').getLast?
  rw [List.map_map, List.map_append]
  simp only [Function.comp_def]
  rw [files a slashFree, files b slashFree', ← List.map_append]
  apply List.Nodup.map fun _ _ => Option.some.inj
  have joined : filesOfNames (names (bareName a)) ++ filesOfNames (names (bareName b)) =
      filesOfNames (names (bareName a) ++ names (bareName b)) := by
    simp [filesOfNames]
  rw [joined]
  exact filesOfNames_nodup distinct

theorem names_of_upper {a b : Str} (distinct : (names (upper a) ++ names (upper b)).Nodup) :
    (names a ++ names b).Nodup := by
  rw [names_nodup] at distinct ⊢
  obtain ⟨same, left, right⟩ := distinct
  refine ⟨fun eq => same (congrArg upper eq), fun eq => left ?_, fun eq => right ?_⟩
  · rw [← eq, upper_cons]
  · rw [eq, upper_cons]

/-- The files of two interfaces are apart exactly if the bare names differ in upper case, also
with an `I` in front of one of them. -/
theorem artefacts_apart_iff (dstDir : Str) (a b : Identifier) :
    Apart (generate dstDir a.text ++ generate dstDir b.text) ↔
      upper (bareName a.text) ≠ upper (bareName b.text) ∧
      'I' :: upper (bareName a.text) ≠ upper (bareName b.text) ∧
      upper (bareName a.text) ≠ 'I' :: upper (bareName b.text) := by
  rw [← names_nodup, ← guards_nodup dstDir]
  constructor
  · exact Apart.guards
  · intro guards
    have distinct := names_of_upper ((guards_nodup dstDir a.text b.text).mp guards)
    have slash : Foreign '/' := rfl
    exact ⟨paths_nodup dstDir (a.notMem_text slash) (b.notMem_text slash) distinct, guards⟩

/-- Two interfaces of one name in different packages have one guard, and an interface and the
one that is called like its C++ class write one file. -/
theorem artefacts_collide :
    let a : Identifier := .ofText "a.Foo".toList (by decide +kernel)
    let b : Identifier := .ofText "b.Foo".toList (by decide +kernel)
    let c : Identifier := .ofText "a.IFoo".toList (by decide +kernel)
    a ≠ b ∧ ⟨"out/a/IFoo.h".toList, some "PBUS_GENERATED_IDL_IFOO_H".toList⟩ ∈
        generate "out".toList a.text ∧
      ⟨"out/b/IFoo.h".toList, some "PBUS_GENERATED_IDL_IFOO_H".toList⟩ ∈
        generate "out".toList b.text ∧
      ¬ Apart (generate "out".toList a.text ++ generate "out".toList b.text) ∧
      ⟨"out/a/IFoo.h".toList, some "PBUS_GENERATED_IDL_IFOO_H".toList⟩ ∈
        generate "out".toList c.text ∧
      ¬ Apart (generate "out".toList a.text ++ generate "out".toList c.text) := by
  intro a b c
  refine ⟨by decide +kernel, by decide +kernel, by decide +kernel, fun apart => ?_,
    by decide +kernel, fun apart => ?_⟩
  · exact absurd apart.guards (by decide +kernel)
  · exact absurd apart.paths (by decide +kernel)

end PBus.Idlc
