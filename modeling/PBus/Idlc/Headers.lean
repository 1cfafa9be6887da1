import PBus.Foundation.Paths
import PBus.Idlc.Artefacts
import PBus.Idlc.Mangling
import PBus.Idlc.Visits
import Mathlib.Data.Char
import Mathlib.Data.Finset.Lattice.Lemmas
import Mathlib.Data.List.Lex
import Mathlib.Data.List.Sort
import Mathlib.Data.Prod.Lex

/-! The files that the generated ones include: the dependencies of an interface, the include
lines of the four templates, and the files those lines lead to. -/
namespace PBus.Idlc
open Cpp Throwing Paths

def coreObject : Str := "core.CoreObject".toList

/-- `interface.base if interface.base else "core.CoreObject"`. -/
def fullBase (base : Option Str) : Str :=
  match base with
  | some base => if base = [] then coreObject else base
  | none => coreObject

/-- `interface.deps` when the context is made. -/
def Cpp.InterfaceText.allDeps (i : InterfaceText) : Finset Str := insert (fullBase i.base) i.deps

/-- A name as `split_type` gives it, ordered as Python orders tuples. -/
abbrev Dep := Str ×ₗ Str ×ₗ Str

namespace Dep

def package (d : Dep) : Str := (ofLex d).1

def ns (d : Dep) : Str := (ofLex (ofLex d).2).1

def name (d : Dep) : Str := (ofLex (ofLex d).2).2

end Dep

def splitDep (typename : Str) : Dep :=
  let (package, ns, name) := splitType typename
  toLex (package, toLex (ns, name))

/-- `sorted(map(split_type, names))`. -/
def sortedDeps (names : List Str) : List Dep := (names.map splitDep).insertionSort (· ≤ ·)

/-- An order in which Python may go through a set. -/
structure Orders (listed : List Str) (names : Finset Str) : Prop where
  nodup : listed.Nodup
  mem_iff : ∀ name, name ∈ listed ↔ name ∈ names

theorem mem_sortedDeps {listed : List Str} {names : Finset Str} (orders : Orders listed names)
    (d : Dep) : d ∈ sortedDeps listed ↔ ∃ name ∈ names, splitDep name = d := by
  rw [sortedDeps, List.mem_insertionSort, List.mem_map]
  simp only [orders.mem_iff]

/-- `replace(".", "/")` of the templates. -/
def slashed (package : Str) : Str := package.map fun c => if c = '.' then '/' else c

/-- `pbus/idl/{{dir}}/{{file}}.h`. -/
def header (dir file : Str) : Str := "pbus/idl/".toList ++ dir ++ '/' :: file ++ ".h".toList

theorem header_eq (dir file : Str) :
    header dir file = "pbus/idl/".toList ++ dir ++ '/' :: file ++ ".h".toList := rfl

/-- `pbus/idl/{{package}}/I{{name}}.h`. -/
def Dep.interfaceLine (d : Dep) : Str := header (slashed d.package) ('I' :: d.name)

/-- `pbus/idl/{{package}}/{{name}}.h`. -/
def Dep.remoteLine (d : Dep) : Str := header (slashed d.package) d.name

/-- `pbus/idl/{{base_namespace}}/{{base}}.h`: for the base the template takes the namespace. -/
def Dep.baseLine (d : Dep) : Str := header (slashed d.ns) d.name

/-- What a template includes, given the dependencies in their order. -/
def Template.includes (i : InterfaceText) (deps : List Dep) : Template → List Str
  | .interfaceH =>
    "pbus/idl/types.h".toList :: deps.map Dep.interfaceLine ++ ["memory".toList]
  | .interfaceCpp =>
    [(splitDep i.name).interfaceLine, (splitDep i.name).remoteLine] ++ deps.map Dep.remoteLine ++
      ["toolkit/serialization/Serializator.h".toList,
        "toolkit/serialization/bson/InputStream.h".toList]
  | .remoteH => [(splitDep i.name).interfaceLine, (splitDep (fullBase i.base)).baseLine]
  | .remoteCpp => [(splitDep i.name).remoteLine, "pbus/MethodId.h".toList]

/-- The file of a template that `generate` writes for a name. -/
def artefactPath (dstDir : Str) (d : Dep) (template : Template) : Str :=
  pathJoin (pathJoin dstDir (d.package.splitOn '.')) [template.mangle d.name]

example (dstDir interface : Str) : (generate dstDir interface).map Artefact.path =
    Template.all.map (artefactPath dstDir (splitDep interface)) := rfl

/-- What each line of a template is for, if that is a generated file. -/
def Template.targets (i : InterfaceText) (deps : List Dep) :
    Template → List (Option (Dep × Template))
  | .interfaceH => none :: deps.map (fun d => some (d, interfaceH)) ++ [none]
  | .interfaceCpp =>
    [some (splitDep i.name, interfaceH), some (splitDep i.name, remoteH)] ++
      deps.map (fun d => some (d, remoteH)) ++ [none, none]
  | .remoteH => [some (splitDep i.name, interfaceH), some (splitDep (fullBase i.base), remoteH)]
  | .remoteCpp => [some (splitDep i.name, remoteH), none]

/-- Looked up in `root`, the line leads to its file as generated into `pbus/idl` there. -/
def Finds (root line : Str) (target : Option (Dep × Template)) : Prop :=
  ∀ file ∈ target, resolve (root ++ '/' :: line) =
    resolve (artefactPath (root ++ "/pbus/idl".toList) file.1 file.2)

/-- The interfaces that the header of an interface names: the base and those of the types of
results and arguments. -/
def SourceType.interface? : SourceType → Option Str
  | .named name =>
    if (bareName name.text).head?.any Char.isUpper then some name.text else none
  | .primitive _ => none

def Source.fullBase (s : Source) : Str := Idlc.fullBase (s.base.map Identifier.text)

theorem mangle_deps {t : SourceType} {text : TypeText} (made : typeText t.tree = .ok text)
    (ref : Bool) : (text.mangle ref).2 = t.interface?.toList := by
  obtain ⟨last, first, type, fullname, name, head, -, -, ptr⟩ := type_spec made
  have deps : (text.mangle ref).2 = if first.isUpper then [text.fullname] else [] := by
    cases upper : first.isUpper with
    | true =>
      obtain ⟨before, mangled⟩ := mangle_pointer (ptr.trans upper)
      rw [mangled, if_pos rfl]
    | false =>
      rw [TypeText.mangle, ptr.trans upper, if_neg Bool.false_ne_true,
        if_neg Bool.false_ne_true]
      split <;> rfl
  rw [deps]
  cases t with
  | named n =>
    obtain rfl := Option.some.inj type
    have alone : text.fullname = n.text := fullname.trans List.intercalate_singleton
    rw [SourceType.interface?, bareName, ← alone, ← name, head, Option.any_some]
    split <;> rfl
  | primitive p =>
    have lower : ∀ c ∈ text.fullname, c.isUpper = false := by
      have word (w : Word) {c : Char} (member : c ∈ w.text) : c.isUpper = false := by
        have none : w.text.any Char.isUpper = false := by cases w <;> rfl
        exact Bool.eq_false_of_not_eq_true (List.any_eq_false.mp none c member)
      intro c member
      rw [fullname] at member
      rcases mem_join member with between | ⟨part, parts, here⟩
      · obtain rfl := List.mem_singleton.mp between
        rfl
      · rcases List.mem_append.mp parts with modifier | type'
        · obtain ⟨w, -, rfl⟩ := List.mem_map.mp modifier
          exact word w here
        · obtain rfl := List.mem_singleton.mp type'
          obtain ⟨w, -, rfl⟩ := Option.map_eq_some_iff.mp type
          exact word w here
    have inside : first ∈ bareName text.fullname := by
      rw [bareName, ← name]
      exact List.mem_of_head? head
    rw [lower first (mem_bareName inside)]
    rfl

/-- An argument leaves the dependencies of its method as they are: `end_argument` does not look
at those of the argument. -/
theorem visit_deps {method : MethodText} {a : Argument} {method' : MethodText}
    (ran : a.visit method = .ok method') : method'.deps = method.deps := by
  obtain ⟨t, named, rest⟩ := ok_of_bind ran
  obtain rfl := Except.ok.inj rest
  rfl

theorem method_deps : Folding.Collects (fun (obj : InterfaceText) (m : Method) => m.visit obj)
    Method.Named InterfaceText.methods
    (fun m method => ∃ t, typeText m.rtype = .ok t ∧ method.deps = (t.mangle false).2.toFinset)
    where
  ends := method_collects.ends
  adds {obj m obj'} ran := by
    refine ⟨(method_collects.adds ran).1, ?_⟩
    obtain ⟨method, typed, rest⟩ := ok_of_bind ran
    obtain ⟨t, rtype, typed⟩ := ok_of_bind typed
    obtain rfl := Except.ok.inj typed
    obtain ⟨method', looped, rest⟩ := ok_of_bind rest
    obtain rfl := Except.ok.inj rest
    refine ⟨method', rfl, t, rtype, ?_⟩
    rw [Folding.fold_keeps visit_deps looped]
    exact Finset.empty_union (t.mangle false).2.toFinset

theorem endMethod_deps {obj : InterfaceText} {m : Method} {obj' : InterfaceText}
    (ran : m.visit obj = .ok obj')
    (collected : ∀ name, name ∈ obj.deps ↔ ∃ method ∈ obj.methods, name ∈ method.deps) :
    ∀ name, name ∈ obj'.deps ↔ ∃ method ∈ obj'.methods, name ∈ method.deps := by
  obtain ⟨method, -, rest⟩ := ok_of_bind ran
  obtain ⟨method', -, rest⟩ := ok_of_bind rest
  obtain rfl := Except.ok.inj rest
  intro name
  simp only [InterfaceText.endMethod, Finset.mem_union, collected, List.mem_append,
    List.mem_singleton, or_and_right, exists_or, exists_eq_left]

theorem mem_deps {s : Source} {obj : InterfaceText} (visited : s.tree.visit {} = .ok ⟨[obj]⟩)
    (name : Str) : name ∈ obj.deps ↔ ∃ m ∈ s.methods, m.type.interface? = some name := by
  obtain ⟨obj', looped, ended⟩ := ok_of_bind visited
  obtain rfl : obj' = obj := by simpa [Generator.endInterface] using Except.ok.inj ended
  have collected := Folding.fold_invariant endMethod_deps looped
    (by simp [Generator.beginInterface])
  obtain ⟨-, methods, added, shown⟩ := method_deps.fold_adds looped
  rw [collected name, added]
  change (∃ method ∈ methods, _) ↔ _
  change List.Forall₂ _ (s.methods.map SourceMethod.tree) methods at shown
  rw [List.forall₂_map_left_iff] at shown
  clear looped added collected visited ended
  generalize s.methods = written at shown ⊢
  induction shown with
  | nil => simp
  | @cons m method ms methods shows _ ih =>
    obtain ⟨t, rtype, deps⟩ := shows
    have own : name ∈ method.deps ↔ m.type.interface? = some name := by
      rw [deps, mangle_deps rtype, List.mem_toFinset, Option.mem_toList]
    simp only [List.mem_cons, exists_eq_or_imp, own, ih]

theorem base_of_visit {s : Source} {obj : InterfaceText}
    (visited : s.tree.visit {} = .ok ⟨[obj]⟩) :
    obj.name = s.name.text ∧ fullBase obj.base = s.fullBase := by
  obtain ⟨obj', looped, ended⟩ := ok_of_bind visited
  obtain rfl : obj' = obj := by simpa [Generator.endInterface] using Except.ok.inj ended
  have kept := Folding.fold_keeps endMethod_keeps looped
  obtain ⟨name, base⟩ := Prod.mk.inj kept
  exact ⟨name, congrArg fullBase base⟩

theorem SourceType.interface_identifier {t : SourceType} {name : Str}
    (interface : t.interface? = some name) : ∃ i : Identifier, i.text = name := by
  cases t with
  | primitive p => contradiction
  | named n =>
    obtain ⟨-, same⟩ : _ ∧ n.text = name := by simpa [SourceType.interface?] using interface
    exact ⟨n, same⟩

theorem Source.fullBase_identifier (s : Source) : ∃ i : Identifier, i.text = s.fullBase := by
  have core : ∃ i : Identifier, i.text = coreObject :=
    ⟨.ofText coreObject (by decide +kernel), rfl⟩
  rw [Source.fullBase]
  cases s.base with
  | none => exact core
  | some base =>
    change ∃ i : Identifier, i.text = if base.text = [] then coreObject else base.text
    split
    · exact core
    · exact ⟨base, rfl⟩

theorem allDeps_identifier {s : Source} {obj : InterfaceText}
    (visited : s.tree.visit {} = .ok ⟨[obj]⟩) {name : Str} (member : name ∈ obj.allDeps) :
    ∃ i : Identifier, i.text = name := by
  rcases Finset.mem_insert.mp member with rfl | dep
  · rw [(base_of_visit visited).2]
    exact s.fullBase_identifier
  · obtain ⟨m, -, interface⟩ := (mem_deps visited name).mp dep
    exact SourceType.interface_identifier interface

theorem relative {part : Str} (slashFree : '/' ∉ part) : part.head? ≠ some '/' := fun first =>
  slashFree (List.mem_of_head? first)

theorem resolve_join {path part : Str} (given : path ≠ []) (terminated : '\x00' ∉ path)
    (slashFree : '/' ∉ part) (nulFree : '\x00' ∉ part) :
    resolve (pathJoin path [part]) = enter (resolve path) part := by
  have followed {path : Str} (terminated : '\x00' ∉ path) :
      resolve (path ++ '/' :: part) = enter (resolve path) part := by
    rw [resolve_append terminated, cString_eq nulFree, components_slashFree slashFree]
    rfl
  simp only [pathJoin, List.foldl_cons, List.foldl_nil, if_neg (relative slashFree)]
  split
  next here =>
    obtain ⟨before, rfl⟩ := List.getLast?_eq_some_iff.mp (here.resolve_left given)
    have terminated' : '\x00' ∉ before := fun nul => terminated (List.mem_append_left _ nul)
    have empty : resolve (before ++ ['/']) = resolve before := by
      rw [resolve_append terminated']
      rfl
    rw [List.append_assoc, empty]
    exact followed terminated'
  next => exact followed terminated

theorem resolve_pathJoin {path : Str} {parts : List Str} (given : path ≠ [])
    (terminated : '\x00' ∉ path) (slashFree : ∀ part ∈ parts, '/' ∉ part)
    (nulFree : ∀ part ∈ parts, '\x00' ∉ part) :
    resolve (pathJoin path parts) = parts.foldl enter (resolve path) ∧
      pathJoin path parts ≠ [] ∧ '\x00' ∉ pathJoin path parts := by
  induction parts generalizing path with
  | nil => exact ⟨rfl, given, terminated⟩
  | cons part parts ih =>
    obtain ⟨slash, slashFree⟩ := List.forall_mem_cons.mp slashFree
    obtain ⟨nul, nulFree⟩ := List.forall_mem_cons.mp nulFree
    have step : pathJoin path (part :: parts) = pathJoin (pathJoin path [part]) parts := rfl
    have first : pathJoin path [part] = path ++ part ∨
        pathJoin path [part] = path ++ '/' :: part := by
      simp only [pathJoin, List.foldl_cons, List.foldl_nil, if_neg (relative slash)]
      split
      · exact .inl rfl
      · exact .inr rfl
    have given' : pathJoin path [part] ≠ [] := by
      rcases first with first | first <;> simp [first, given]
    have terminated' : '\x00' ∉ pathJoin path [part] := by
      rcases first with first | first <;> simp [first, terminated, nul]
    rw [step, List.foldl_cons, ← resolve_join given terminated slash nul]
    exact ih given' terminated' slashFree nulFree

/-- A text of identifier characters. -/
def Spelled (text : Str) : Prop := ∀ c ∈ text, isIdentifierRest c = true

theorem Spelled.notMem {text : Str} {c : Char} (spelled : Spelled text) (foreign : Foreign c) :
    c ∉ text := fun member => absurd ((spelled c member).symm.trans foreign) (by decide)

theorem spelled_splitDep {typename : Str} (spelled : Spelled typename) :
    Spelled (splitDep typename).package ∧ Spelled (splitDep typename).name := by
  constructor
  · intro c member
    rcases mem_join member with dot | ⟨part, parts, here⟩
    · obtain rfl := List.mem_singleton.mp dot
      rfl
    · exact spelled c ((Splitting.mem_splitOn (List.mem_of_mem_dropLast parts)).2 c here)
  · exact fun c member => spelled c (mem_bareName member)

theorem isName_append (name : Str) {suffix : Str} {c : Char} (last : suffix.getLast? = some c)
    (letter : c ≠ '.') : IsName (name ++ suffix) := by
  have some' : suffix ≠ [] := by
    rintro rfl
    contradiction
  have ends : (name ++ suffix).getLast? = some c :=
    (List.getLast?_append_of_ne_nil name some').trans last
  have other {text : Str} (dots : text = [] ∨ text.getLast? = some '.') :
      name ++ suffix ≠ text := by
    rintro rfl
    rcases dots with none' | dot
    · exact some' (List.append_eq_nil_iff.mp none').2
    · exact letter (Option.some.inj (ends.symm.trans dot))
  exact ⟨other (.inl rfl), other (.inr rfl), other (.inr rfl)⟩

theorem isName_mangle (name : Str) (template : Template) : IsName (template.mangle name) := by
  cases template with
  | interfaceH | remoteH => exact isName_append (c := 'h') _ rfl (by decide)
  | interfaceCpp | remoteCpp => exact isName_append (c := 'p') _ rfl (by decide)

/-- Where the file of a dependency is: behind the parts of its package. -/
theorem resolve_artefactPath {dst : Str} (given : dst ≠ []) (terminated : '\x00' ∉ dst) {d : Dep}
    (package : Spelled d.package) (name : Spelled d.name) (template : Template) :
    resolve (artefactPath dst d template) =
      (d.package.splitOn '.').foldl enter (resolve dst) ++ [template.mangle d.name] := by
  have parts {c : Char} (foreign : Foreign c) : ∀ part ∈ d.package.splitOn '.', c ∉ part :=
    fun part member inside =>
      package.notMem foreign ((Splitting.mem_splitOn member).2 c inside)
  have file {c : Char} (foreign : Foreign c) (other : c ∉ "I.cpph".toList) :
      c ∉ template.mangle d.name := by
    intro inside
    have own := name.notMem foreign
    cases template <;> simp_all [Template.mangle]
  obtain ⟨dir, given', terminated'⟩ := resolve_pathJoin given terminated
    (parts (c := '/') rfl) (parts (c := '\x00') rfl)
  rw [artefactPath, resolve_join given' terminated' (file rfl (by decide)) (file rfl (by decide)),
    dir, enter_name (isName_mangle d.name template)]

theorem resolve_header {root dir file : Str} (terminated : '\x00' ∉ root) (nulFree : '\x00' ∉ dir)
    (name : Spelled file) : resolve (root ++ '/' :: header dir file) =
      (components dir).foldl enter (resolve (root ++ "/pbus/idl".toList)) ++
        [file ++ ".h".toList] := by
  have slash : '/' ∉ file ++ ".h".toList := by simp [name.notMem (c := '/') rfl]
  have nul : '\x00' ∉ file ++ ".h".toList := by simp [name.notMem (c := '\x00') rfl]
  have terminated' : '\x00' ∉ root ++ "/pbus/idl".toList := by simp [terminated]
  have whole : root ++ '/' :: header dir file =
      (root ++ "/pbus/idl".toList) ++ '/' :: (dir ++ '/' :: (file ++ ".h".toList)) := by
    have inside : '/' :: "pbus/idl/".toList = "/pbus/idl".toList ++ ['/'] := by simp
    simp only [header_eq, List.append_assoc, List.cons_append]
    rw [← List.cons_append, inside, List.append_assoc, List.singleton_append]
  rw [whole, resolve_append terminated', cString_append nulFree]
  change (components (dir ++ '/' :: cString _)).foldl enter _ = _
  rw [cString_eq nul, components_append, components_slashFree slash, List.foldl_append]
  exact enter_name (isName_append (c := 'h') _ rfl (by decide)) _

theorem mem_ns {typename : Str} {c : Char} : c ∈ (splitDep typename).ns ↔
    c = ':' ∧ '.' ∈ (splitDep typename).package ∨
      c ≠ '.' ∧ c ∈ (splitDep typename).package := by
  have ns : (splitDep typename).ns = (splitDep typename).package.flatMap fun c =>
      if c = '.' then [':', ':'] else [c] := rfl
  rw [ns, List.mem_flatMap]
  constructor
  · rintro ⟨d, member, inside⟩
    split at inside
    next dot => exact .inl ⟨by simpa using inside, dot ▸ member⟩
    next other =>
      obtain rfl := List.mem_singleton.mp inside
      exact .inr ⟨other, member⟩
  · rintro (⟨rfl, dotted⟩ | ⟨other, member⟩)
    · exact ⟨'.', dotted, by decide⟩
    · exact ⟨c, member, by rw [if_neg other]; exact List.mem_singleton_self c⟩

theorem ns_dotFree {typename : Str} (dotFree : '.' ∉ (splitDep typename).package) :
    (splitDep typename).ns = (splitDep typename).package := by
  calc
    _ = (splitDep typename).package.flatMap fun c => [c] :=
      List.flatMap_congr fun c member => if_neg (ne_of_mem_of_not_mem member dotFree)
    _ = (splitDep typename).package := by simp

theorem slashed_dotFree {package : Str} (dotFree : '.' ∉ package) : slashed package = package := by
  calc
    _ = package.map id := List.map_congr_left fun c member =>
      if_neg (ne_of_mem_of_not_mem member dotFree)
    _ = package := List.map_id package

section Found
variable {root : Str} (terminated : '\x00' ∉ root)
include terminated

theorem finds_iff {dir file : Str} (nulFree : '\x00' ∉ dir) (spelled : Spelled file) {d : Dep}
    (package : Spelled d.package) (name : Spelled d.name) {template : Template}
    (same : template.mangle d.name = file ++ ".h".toList) :
    Finds root (header dir file) (some (d, template)) ↔
      (components dir).foldl enter (resolve (root ++ "/pbus/idl".toList)) =
        (d.package.splitOn '.').foldl enter (resolve (root ++ "/pbus/idl".toList)) := by
  have given : root ++ "/pbus/idl".toList ≠ [] := List.append_ne_nil_of_right_ne_nil _ (by decide)
  have terminated' : '\x00' ∉ root ++ "/pbus/idl".toList := by simp [terminated]
  simp only [Finds, Option.mem_def, Option.some.injEq, forall_eq']
  rw [resolve_header terminated nulFree spelled,
    resolve_artefactPath given terminated' package name, same, List.append_left_inj]

theorem finds_slashed {d : Dep} (package : Spelled d.package) (name : Spelled d.name) {file : Str}
    (spelled : Spelled file) {template : Template}
    (same : template.mangle d.name = file ++ ".h".toList) :
    Finds root (header (slashed d.package) file) (some (d, template)) := by
  have parts : components (slashed d.package) = d.package.splitOn '.' :=
    Splitting.splitOn_replace (package.notMem rfl)
  have nulFree : '\x00' ∉ slashed d.package := by
    intro nul
    obtain ⟨c, member, same⟩ := List.mem_map.mp nul
    split at same
    · contradiction
    · exact package.notMem (c := '\x00') rfl (same ▸ member)
  rw [finds_iff terminated nulFree spelled package name same, parts]

theorem finds_interface (i : Identifier) :
    Finds root (splitDep i.text).interfaceLine (some (splitDep i.text, .interfaceH)) := by
  obtain ⟨package, name⟩ := spelled_splitDep i.rest
  exact finds_slashed terminated package name (List.forall_mem_cons.mpr ⟨rfl, name⟩) rfl

theorem finds_remote (i : Identifier) :
    Finds root (splitDep i.text).remoteLine (some (splitDep i.text, .remoteH)) := by
  obtain ⟨package, name⟩ := spelled_splitDep i.rest
  exact finds_slashed terminated package name name rfl

/-- The line for the base has the namespace for a directory, which is the one of the package only
if that has no parts. -/
theorem finds_base_iff (i : Identifier) :
    Finds root (splitDep i.text).baseLine (some (splitDep i.text, .remoteH)) ↔
      '.' ∉ (splitDep i.text).package := by
  obtain ⟨package, name⟩ := spelled_splitDep i.rest
  by_cases dotted : '.' ∈ (splitDep i.text).package
  · refine iff_of_false ?_ (not_not_intro dotted)
    have chars {c : Char} (foreign : Foreign c) (other : c ≠ ':') :
        c ∉ (splitDep i.text).ns := by
      rw [mem_ns]
      rintro (⟨colon, -⟩ | ⟨-, inside⟩)
      · exact other colon
      · exact package.notMem foreign inside
    have dotFree : '.' ∉ (splitDep i.text).ns := by simp [mem_ns]
    have colon : ':' ∈ (splitDep i.text).ns := mem_ns.mpr (.inl ⟨rfl, dotted⟩)
    have isName : IsName (splitDep i.text).ns := by
      have other {text : Str} (plain : ':' ∉ text) : (splitDep i.text).ns ≠ text :=
        fun same => plain (same ▸ colon)
      exact ⟨other (by decide), other (by decide), other (by decide)⟩
    have down : parent ∉ (splitDep i.text).package.splitOn '.' := fun member =>
      (Splitting.mem_splitOn member).1 (by decide)
    rw [Dep.baseLine, slashed_dotFree dotFree,
      finds_iff terminated (chars rfl (by decide)) name package name rfl,
      components_slashFree (chars rfl (by decide)), List.foldl_cons, List.foldl_nil,
      enter_name isName, foldl_enter_down down, List.append_right_inj]
    -- a directory with a colon is none of the package
    intro parts
    have member : (splitDep i.text).ns ∈
        ((splitDep i.text).package.splitOn '.').foldl enter [] := by
      rw [← parts]
      exact List.mem_singleton_self _
    have part := (mem_foldl_enter member).resolve_left List.not_mem_nil
    exact package.notMem (c := ':') rfl ((Splitting.mem_splitOn part).2 ':' colon)
  · refine iff_of_true ?_ dotted
    rw [Dep.baseLine, ns_dotFree dotted]
    exact finds_slashed terminated package name name rfl

/-- What a template that is generated includes: every line leads to the file it is for, except
that the header of a proxy misses the one of its base if that is in a package with several
parts. -/
theorem includes_found_iff {s : Source} {obj : InterfaceText}
    (visited : s.tree.visit {} = .ok ⟨[obj]⟩) {listed : List Str}
    (orders : Orders listed obj.allDeps) (template : Template) :
    List.Forall₂ (Finds root) (template.includes obj (sortedDeps listed))
        (template.targets obj (sortedDeps listed)) ↔
      (template = .remoteH → '.' ∉ (splitDep s.fullBase).package) := by
  obtain ⟨name, base⟩ := base_of_visit visited
  have ownInterface : Finds root (splitDep obj.name).interfaceLine
      (some (splitDep obj.name, .interfaceH)) := name ▸ finds_interface terminated s.name
  have ownRemote : Finds root (splitDep obj.name).remoteLine
      (some (splitDep obj.name, .remoteH)) := name ▸ finds_remote terminated s.name
  have deps : ∀ d ∈ sortedDeps listed, ∃ i : Identifier, splitDep i.text = d := by
    intro d member
    obtain ⟨dep, inside, split⟩ := (mem_sortedDeps orders d).mp member
    obtain ⟨i, rfl⟩ := allDeps_identifier visited inside
    exact ⟨i, split⟩
  have others {line : Str} : Finds root line none := fun file found => nomatch found
  have each (lineOf : Dep → Str) (made : Template)
      (found : ∀ i : Identifier,
        Finds root (lineOf (splitDep i.text)) (some (splitDep i.text, made))) :
      List.Forall₂ (Finds root) ((sortedDeps listed).map lineOf)
        ((sortedDeps listed).map fun d => some (d, made)) := by
    rw [List.forall₂_map_left_iff, List.forall₂_map_right_iff, List.forall₂_same]
    intro d member
    obtain ⟨i, rfl⟩ := deps d member
    exact found i
  cases template with
  | interfaceH =>
    refine iff_of_true ?_ (fun other => nomatch other)
    exact .cons others (List.rel_append
      (each Dep.interfaceLine .interfaceH (finds_interface terminated)) (.cons others .nil))
  | interfaceCpp =>
    refine iff_of_true ?_ (fun other => nomatch other)
    exact .cons ownInterface (.cons ownRemote
      (List.rel_append (each Dep.remoteLine .remoteH (finds_remote terminated))
        (.cons others (.cons others .nil))))
  | remoteH =>
    obtain ⟨i, same⟩ := s.fullBase_identifier
    simp only [Template.includes, Template.targets, base, ← same, List.forall₂_cons,
      List.Forall₂.nil, and_true, ownInterface, true_and, finds_base_iff terminated i,
      forall_const]
  | remoteCpp =>
    refine iff_of_true ?_ (fun other => nomatch other)
    exact .cons ownRemote (.cons others .nil)

end Found

/-- The header of the proxy of an interface in `a.b` looks for its base in a directory `a::b`. -/
theorem base_of_package_missed :
    let s : Source := ⟨.ofText "a.b.A".toList (by decide +kernel),
      some (.ofText "a.b.D".toList (by decide +kernel)), []⟩
    ∃ obj, s.tree.visit {} = .ok ⟨[obj]⟩ ∧ obj.allDeps = {"a.b.D".toList} ∧
      Template.remoteH.includes obj (sortedDeps ["a.b.D".toList]) =
        ["pbus/idl/a/b/IA.h".toList, "pbus/idl/a::b/D.h".toList] ∧
      ¬ List.Forall₂ (Finds "/usr/include".toList)
        (Template.remoteH.includes obj (sortedDeps ["a.b.D".toList]))
        (Template.remoteH.targets obj (sortedDeps ["a.b.D".toList])) := by
  intro s
  have visited : s.tree.visit {} =
      .ok ⟨[⟨"a.b.A".toList, some "a.b.D".toList, [], ∅⟩]⟩ := rfl
  have orders : Orders ["a.b.D".toList]
      (InterfaceText.allDeps ⟨"a.b.A".toList, some "a.b.D".toList, [], ∅⟩) :=
    ⟨List.nodup_singleton _, fun name => List.mem_singleton.trans Finset.mem_singleton.symm⟩
  refine ⟨_, visited, rfl, by decide +kernel, fun found => ?_⟩
  have dotFree := (includes_found_iff (by decide) visited orders .remoteH).mp found rfl
  exact dotFree (by decide +kernel)

theorem text_eq (i : Identifier) : i.text =
    if (splitDep i.text).package = [] then (splitDep i.text).name
    else (splitDep i.text).package ++ '.' :: (splitDep i.text).name := by
  rcases Splitting.last_separator '.' i.text with free | ⟨before, last, free, split⟩
  · have whole : i.text.splitOn '.' = [i.text] := List.splitOn_eq_singleton free
    have package : (splitDep i.text).package = [] := by
      change join ['.'] (i.text.splitOn '.').dropLast = []
      rw [whole]
      rfl
    rw [if_pos package]
    exact (SourceType.splitType_dotFree free).symm
  · have parts : i.text.splitOn '.' = before.splitOn '.' ++ [last] := by
      rw [split, List.splitOn_append_cons_self, List.splitOn_eq_singleton free]
    have package : (splitDep i.text).package = before := by
      change join ['.'] (i.text.splitOn '.').dropLast = before
      rw [parts, List.dropLast_concat]
      exact List.intercalate_splitOn '.'
    have name : (splitDep i.text).name = last := by
      change (i.text.splitOn '.').getLastD [] = last
      rw [parts, List.getLastD_concat]
    have begun : before ≠ [] := by
      obtain ⟨c, first, start⟩ := i.start
      rintro rfl
      rw [split] at first
      obtain rfl := Option.some.inj first
      contradiction
    rw [package, name, if_neg begun]
    exact split

theorem interfaceLine_injective {i j : Identifier}
    (same : (splitDep i.text).interfaceLine = (splitDep j.text).interfaceLine) :
    i.text = j.text := by
  have parts (k : Identifier) :
      components (slashed (splitDep k.text).package ++ '/' :: 'I' :: (splitDep k.text).name) =
        (splitDep k.text).package.splitOn '.' ++ ['I' :: (splitDep k.text).name] := by
    obtain ⟨package, name⟩ := spelled_splitDep k.rest
    have slashFree : '/' ∉ 'I' :: (splitDep k.text).name := by simp [name.notMem (c := '/') rfl]
    rw [components_append, components_slashFree slashFree]
    exact congrArg (· ++ _) (Splitting.splitOn_replace (package.notMem rfl))
  have middle (k : Identifier) : (splitDep k.text).interfaceLine = "pbus/idl/".toList ++
      (slashed (splitDep k.text).package ++ '/' :: 'I' :: (splitDep k.text).name) ++
        ".h".toList := by
    rw [Dep.interfaceLine, header_eq]
    simp only [List.append_assoc, List.cons_append]
  rw [middle, middle] at same
  have inner := congrArg components (List.append_cancel_left (List.append_cancel_right same))
  rw [parts, parts] at inner
  obtain ⟨packages, names⟩ := List.append_inj' inner rfl
  have package : (splitDep i.text).package = (splitDep j.text).package := by
    have joined := congrArg (join ['.']) packages
    rwa [join, join, List.intercalate_splitOn, List.intercalate_splitOn] at joined
  have name : (splitDep i.text).name = (splitDep j.text).name := by simpa using names
  rw [text_eq i, text_eq j, package, name]

theorem mem_includes_iff {obj : InterfaceText} {listed : List Str}
    (orders : Orders listed obj.allDeps)
    (known : ∀ name ∈ obj.allDeps, ∃ i : Identifier, i.text = name) (i : Identifier) :
    (splitDep i.text).interfaceLine ∈ Template.interfaceH.includes obj (sortedDeps listed) ↔
      i.text ∈ obj.allDeps := by
  have slashes : 3 ≤ (splitDep i.text).interfaceLine.count '/' := by
    have two : "pbus/idl/".toList.count '/' = 2 := by decide
    rw [Dep.interfaceLine, header_eq]
    simp only [List.count_append, List.count_cons_self, two]
    omega
  have outside (line : Str) (few : line.count '/' < 3) :
      (splitDep i.text).interfaceLine ≠ line := by
    intro same
    rw [same] at slashes
    omega
  simp only [Template.includes, List.cons_append, List.mem_cons, List.mem_append, List.mem_map,
    List.not_mem_nil, or_false, outside "pbus/idl/types.h".toList (by decide),
    outside "memory".toList (by decide), false_or]
  constructor
  · rintro ⟨d, member, same⟩
    obtain ⟨name, dep, rfl⟩ := (mem_sortedDeps orders d).mp member
    obtain ⟨j, rfl⟩ := known name dep
    exact interfaceLine_injective same ▸ dep
  · intro dep
    exact ⟨splitDep i.text, (mem_sortedDeps orders _).mpr ⟨i.text, dep, rfl⟩, rfl⟩

def Source.interfaces (s : Source) : List Str :=
  s.fullBase :: s.types.filterMap SourceType.interface?

/-- Every interface: its header includes the headers of all interfaces it names exactly if those
of its arguments are its base or results of its methods as well. -/
theorem self_contained_iff {s : Source} {obj : InterfaceText}
    (visited : s.tree.visit {} = .ok ⟨[obj]⟩) {listed : List Str}
    (orders : Orders listed obj.allDeps) :
    (∀ name ∈ s.interfaces, (splitDep name).interfaceLine ∈
        Template.interfaceH.includes obj (sortedDeps listed)) ↔
      ∀ m ∈ s.methods, ∀ a ∈ m.arguments, ∀ name ∈ a.type.interface?,
        name = s.fullBase ∨ ∃ m' ∈ s.methods, m'.type.interface? = some name := by
  have included {name : Str} (named : ∃ i : Identifier, i.text = name) :
      (splitDep name).interfaceLine ∈ Template.interfaceH.includes obj (sortedDeps listed) ↔
        name = s.fullBase ∨ ∃ m ∈ s.methods, m.type.interface? = some name := by
    obtain ⟨i, rfl⟩ := named
    rw [mem_includes_iff orders (fun _ dep => allDeps_identifier visited dep), ← mem_deps visited,
      InterfaceText.allDeps, Finset.mem_insert, (base_of_visit visited).2]
  constructor
  · intro all m method a argument name interface
    apply (included (SourceType.interface_identifier interface)).mp
    apply all
    refine List.mem_cons_of_mem _ (List.mem_filterMap.mpr ⟨a.type, ?_, interface⟩)
    exact List.mem_flatMap.mpr ⟨m, method, List.mem_cons_of_mem _ (List.mem_map_of_mem argument)⟩
  · intro covered name named
    rcases List.mem_cons.mp named with rfl | typed
    · exact (included s.fullBase_identifier).mpr (.inl rfl)
    · obtain ⟨t, type, interface⟩ := List.mem_filterMap.mp typed
      apply (included (SourceType.interface_identifier interface)).mpr
      obtain ⟨m, method, here⟩ := List.mem_flatMap.mp type
      rcases List.mem_cons.mp here with rfl | argument
      · exact .inr ⟨m, method, interface⟩
      · obtain ⟨a, written, rfl⟩ := List.mem_map.mp argument
        exact covered m method a written name interface

/-- The header does not include that of an interface that is the type of an argument only. -/
theorem argument_not_included :
    let s : Source := ⟨.ofText "a.A".toList (by decide +kernel), none,
      [⟨.primitive ⟨[.void], List.cons_ne_nil _ _, List.forall_mem_singleton.mpr rfl,
          Nat.le_refl 1⟩,
        .ofText "put".toList (by decide +kernel),
        [⟨.named (.ofText "b.B".toList (by decide +kernel)),
          .ofText "item".toList (by decide +kernel)⟩],
        false, fun comma => absurd comma Bool.false_ne_true⟩]⟩
    ∃ obj, s.tree.visit {} = .ok ⟨[obj]⟩ ∧ Orders [coreObject] obj.allDeps ∧
      "b.B".toList ∈ s.interfaces ∧
      ¬ ∀ name ∈ s.interfaces, (splitDep name).interfaceLine ∈
        Template.interfaceH.includes obj (sortedDeps [coreObject]) := by
  intro s
  let obj : InterfaceText := ⟨"a.A".toList, none, [⟨"put".toList, some "void".toList,
    [⟨"item".toList, "b::IBPtr".toList, {"b.B".toList}⟩], ∅⟩], ∅⟩
  have visited : s.tree.visit {} = .ok ⟨[obj]⟩ := rfl
  have orders : Orders [coreObject] obj.allDeps :=
    ⟨List.nodup_singleton _, fun name => List.mem_singleton.trans Finset.mem_singleton.symm⟩
  refine ⟨obj, visited, orders, by decide +kernel, fun included => ?_⟩
  have covered := (self_contained_iff visited orders).mp included
  have known := covered _ List.mem_cons_self _ List.mem_cons_self "b.B".toList (by decide +kernel)
  rcases known with base | ⟨m, method, result⟩
  · exact absurd base (by decide +kernel)
  · obtain rfl := List.mem_singleton.mp method
    exact absurd result (by decide +kernel)

end PBus.Idlc
