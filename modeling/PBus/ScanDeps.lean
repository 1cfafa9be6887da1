import PBus.Foundation.Chains
import PBus.Foundation.Paths
import PBus.Foundation.Throwing
import PBus.Idlc.Artefacts
import PBus.LocalBus
import Mathlib.Data.List.DropRight
import Mathlib.Data.List.Sort

/-! `scan-deps`, which writes the configuration of a service: the libraries that `ldd` reports for
its binary and every path on their chains of symbolic links. -/
namespace PBus.ScanDeps
open Chains Paths Throwing
open Idlc (pathJoin)

/-! The script. The file system answers for a path as the script writes it, from the directory
that the script runs in. -/

/-- `os.path.dirname`. -/
def dirname (path : Str) : Str :=
  let head := path.take (match rfind path '/' with | none => 0 | some i => i + 1)
  if head ≠ [] ∧ head ≠ List.replicate head.length '/' then head.rdropWhile (· == '/') else head

inductive Stop where
  /-- `IndexError: string index out of range`. -/
  | indexError
  /-- The loop is not over yet. -/
  | outOfFuel
  deriving DecidableEq, Repr

def transform (base : Option Str) (dep : Str) : Except Stop Str :=
  match base with
  | none => .ok dep
  | some base =>
    if base.isPrefixOf dep then
      match dep.drop base.length with
      | [] => .error .indexError
      | c :: behind =>
        .ok ("./lib".toList ++ if c ≠ '/' then '/' :: c :: behind else c :: behind)
    else .ok dep

/-- The path that the loop goes on with: only a bare name is taken from the directory of the
link. -/
def lookedUp (dep target : Str) : Str :=
  if '/' ∉ target then pathJoin (dirname dep) [target] else target

/-- `while os.path.islink(dep)`. -/
def chase (readlink : Str → Option Str) (base : Option Str) :
    Nat → List Str → Str → Except Stop (List Str)
  | 0, _, _ => .error .outOfFuel
  | fuel + 1, deps, dep =>
    match readlink dep with
    | none => .ok deps
    | some target => do
      let target := lookedUp dep target
      let entry ← transform base target
      chase readlink base fuel (deps ++ [entry]) target

/-- The dependencies that are there before the first library. -/
def initial : List Str := ["/lib64/ld-linux-x86-64.so.2".toList, "/etc/ld.so.cache".toList]

/-- One turn of the loop over what `ldd` reports. -/
def library (readlink : Str → Option Str) (base : Option Str) (fuel : Nat) (deps : List Str)
    (dep : Str) : Except Stop (List Str) := do
  let entry ← transform base dep
  chase readlink base fuel (deps ++ [entry]) dep

def scan (readlink : Str → Option Str) (base : Option Str) (fuel : Nat) (libs : List Str) :
    Except Stop (List Str) :=
  libs.foldlM (library readlink base fuel) initial

/-- `sorted`, which orders texts by their code points. -/
def sorted (deps : List Str) : List Str :=
  deps.insertionSort fun a b => b.lex a = false

def config (deps : List Str) : Str := ['\n'].intercalate (sorted deps ++ [[]])

/-! What the scan is for. -/

/-- The path that a link leads to: its target, from the directory of the link. -/
def resolved (link target : Str) : Str := pathJoin (dirname link) [target]

/-- The links of a file system, as it is seen from one directory. -/
structure Links where
  readlink : Str → Option Str
  /-- No chain is endless: among finitely many links, none leads back to itself. -/
  acyclic : Ends fun path => (readlink path).map (resolved path)

/-- The paths from one to the file that is no link. -/
def Links.chain (links : Links) (path : Str) : List Str := Chains.chain links.acyclic path

/-- Where a path leads, from the directory that the script runs in. -/
def place (cwd path : Str) : List Str := resolve (pathJoin cwd [path])

def Inside (cwd base path : Str) : Prop := place cwd base <+: place cwd path

/-- Followed from the base, and without leaving it, `rest` leads to where the path does. -/
structure Leads (cwd base path rest : Str) : Prop where
  stays : Stays rest
  place : place cwd path = place cwd base ++ resolve rest

def lib : Str := "./lib/".toList

/-- The entry for a path: under `./lib` for one inside the base, and the path itself otherwise. -/
structure Stands (cwd : Str) (base : Option Str) (path entry : Str) : Prop where
  inside : ∀ b, base = some b → Inside cwd b path →
    ∃ rest, entry = lib ++ rest ∧ Leads cwd b path rest
  outside : (∀ b, base = some b → ¬ Inside cwd b path) → entry = path

/-- The dependencies in the file contain every path on the chains of the libraries. -/
def Contained (links : Links) (cwd : Str) (base : Option Str) (libs : List Str) : Prop :=
  ∃ fuel deps, scan links.readlink base fuel libs = .ok deps ∧
    ∀ dep ∈ libs, ∀ path ∈ links.chain dep,
      ∃ line ∈ (config deps).splitOn '\n', Stands cwd base path line

/-- From a library on, the loop goes through the paths of the chain. -/
def Follows (links : Links) (dep : Str) : Prop :=
  ∃ fuel, walk (fun path => (links.readlink path).map (lookedUp path)) fuel dep =
    some (links.chain dep)

/-- What is written for a path is a line that stands for it. -/
def Rewrites (cwd : Str) (base : Option Str) (path : Str) : Prop :=
  ∃ line, transform base path = .ok line ∧ '\n' ∉ line ∧ Stands cwd base path line

/-- And they do because the scan follows each chain and rewrites each path on it. -/
structure Closed (links : Links) (cwd : Str) (base : Option Str) (libs : List Str) : Prop where
  contained : Contained links cwd base libs
  follows : ∀ dep ∈ libs, Follows links dep
  rewrites : ∀ dep ∈ libs, ∀ path ∈ links.chain dep, Rewrites cwd base path

/-! When it does it. -/

/-- What follows the text of the base, and one slash. -/
def rest (base path : Str) : Str :=
  match path.drop base.length with
  | [] => []
  | c :: behind => if c = '/' then behind else c :: behind

/-- The text of the base tells what is inside it. Only where the base is `./lib` itself may a
path that is left as it is lie on the other side. -/
structure Suits (cwd base path : Str) : Prop where
  proper : path ≠ base
  begins : base <+: path → Leads cwd base path (rest base path) ∨
    ¬ Inside cwd base path ∧ path = lib ++ rest base path
  other : ¬ base <+: path → ¬ Inside cwd base path ∨
    ∃ rest, path = lib ++ rest ∧ Leads cwd base path rest

/-- What of a path is written. -/
def kept (base : Option Str) (path : Str) : Str :=
  match base with
  | none => path
  | some base => if base.isPrefixOf path then rest base path else path

/-- The condition on a path that a chain goes through. -/
structure Plain (links : Links) (cwd : Str) (base : Option Str) (path : Str) : Prop where
  /-- A relative target with a slash is that of a link in the working directory. -/
  target : ∀ target, links.readlink path = some target → '/' ∈ target →
    target.head? ≠ some '/' → '/' ∉ path
  suits : ∀ b, base = some b → Suits cwd b path
  line : '\n' ∉ kept base path

section Paths
variable {path target : Str}

theorem dirname_eq_nil : dirname path = [] ↔ '/' ∉ path := by
  constructor
  · intro none slash
    obtain ⟨i, found⟩ := Option.ne_none_iff_exists'.mp (mt rfind_eq_none.mp (not_not.mpr slash))
    have some' : path.take (i + 1) ≠ [] := by
      cases path with
      | nil => exact absurd slash List.not_mem_nil
      | cons c path => exact List.cons_ne_nil _ _
    simp only [dirname, found] at none
    split at none
    next mixed =>
      -- not all of it is slashes, so something is left
      refine mixed.2 (List.eq_replicate_iff.mpr ⟨rfl, ?_⟩)
      exact fun c hc => eq_of_beq (List.rdropWhile_eq_nil_iff.mp none c hc)
    next => exact some' none
  · intro slashFree
    simp [dirname, rfind_eq_none.mpr slashFree]

/-- The script takes a target from the directory of the link, but for one of the three shapes. -/
theorem lookedUp_eq_resolved_iff : lookedUp path target = resolved path target ↔
    ('/' ∈ target → target.head? ≠ some '/' → '/' ∉ path) := by
  rw [← dirname_eq_nil]
  by_cases slash : '/' ∈ target
  · rw [lookedUp, if_neg (not_not.mpr slash)]
    simp only [resolved, pathJoin, List.foldl_cons, List.foldl_nil]
    by_cases absolute : target.head? = some '/'
    · simp [absolute]
    · rw [if_neg absolute]
      simp only [slash, true_implies, ne_eq, absolute, not_false_eq_true]
      split
      · rw [List.self_eq_append_left]
      next none =>
        refine iff_of_false (fun same => ?_) (fun nil => none (.inl nil))
        have longer := congrArg List.length same
        rw [List.length_append, List.length_cons] at longer
        omega
  · simp [lookedUp, resolved, slash]

end Paths

def entry (base : Option Str) (path : Str) : Str :=
  match base with
  | none => path
  | some base => if base.isPrefixOf path then lib ++ rest base path else path

section Entries
variable {cwd b path behind : Str} {base : Option Str}

theorem transform_base (b : Str) : transform (some b) b = .error .indexError := by
  simp [transform]

/-- The script fails on the base and has an entry for every other path. -/
theorem transform_eq (proper : ∀ b, base = some b → path ≠ b) :
    transform base path = .ok (entry base path) := by
  cases base with
  | none => rfl
  | some b =>
    simp only [transform, entry]
    split
    next begins =>
      obtain ⟨behind, rfl⟩ := List.isPrefixOf_iff_prefix.mp begins
      cases behind with
      | nil => exact absurd (List.append_nil b) (proper b rfl)
      | cons c behind =>
        simp only [rest, List.drop_left]
        by_cases slash : c = '/'
        · simp [slash, lib]
        · simp [slash, lib]
    next => rfl

theorem nl_notMem_lib : '\n' ∉ lib := by decide +kernel

theorem nl_mem_entry : '\n' ∈ entry base path ↔ '\n' ∈ kept base path := by
  cases base with
  | none => rfl
  | some b =>
    simp only [entry, kept]
    split
    · rw [List.mem_append]
      exact or_iff_right nl_notMem_lib
    · rfl

theorem Leads.inside (leads : Leads cwd b path behind) : Inside cwd b path := by
  rw [Inside, leads.place]
  exact List.prefix_append _ _

/-- The entry is the right one exactly where the text of the base tells what is inside it. -/
theorem stands_iff_suits (proper : path ≠ b) :
    Stands cwd (some b) path (entry (some b) path) ↔ Suits cwd b path := by
  simp only [entry, List.isPrefixOf_iff_prefix]
  constructor
  · intro stands
    constructor
    case proper => exact proper
    case begins =>
      intro begins
      rw [if_pos begins] at stands
      by_cases inside : Inside cwd b path
      · obtain ⟨behind, same, leads⟩ := stands.inside b rfl inside
        exact .inl (List.append_cancel_left same ▸ leads)
      · have same := stands.outside fun c here => Option.some.inj here ▸ inside
        exact .inr ⟨inside, same.symm⟩
    case other =>
      intro other
      rw [if_neg other] at stands
      by_cases inside : Inside cwd b path
      · exact .inr (stands.inside b rfl inside)
      · exact .inl inside
  · intro suits
    split
    next begins =>
      constructor
      case inside =>
        intro c here inside
        obtain rfl := Option.some.inj here
        rcases suits.begins begins with leads | ⟨outside, _⟩
        · exact ⟨rest b path, rfl, leads⟩
        · exact absurd inside outside
      case outside =>
        intro outside
        rcases suits.begins begins with leads | ⟨_, same⟩
        · exact absurd leads.inside (outside b rfl)
        · exact same.symm
    next other =>
      constructor
      case inside =>
        intro c here inside
        obtain rfl := Option.some.inj here
        exact (suits.other other).resolve_left (not_not.mpr inside)
      case outside => exact fun _ => rfl

theorem rewrites_iff : Rewrites cwd base path ↔
    (∀ b, base = some b → Suits cwd b path) ∧ '\n' ∉ kept base path := by
  have written (proper : ∀ b, base = some b → path ≠ b) : Rewrites cwd base path ↔
      Stands cwd base path (entry base path) ∧ '\n' ∉ kept base path := by
    rw [Rewrites, transform_eq proper, ← nl_mem_entry]
    simp only [Except.ok.injEq, exists_eq_left']
    exact and_comm
  cases base with
  | none =>
    rw [written (by simp)]
    refine and_congr_left fun _ => iff_of_true ?_ (by simp)
    exact ⟨fun b none => by contradiction, fun _ => rfl⟩
  | some b =>
    by_cases proper : path = b
    · subst proper
      refine iff_of_false ?_ fun suits => (suits.1 path rfl).proper rfl
      rintro ⟨line, ran, _⟩
      rw [transform_base] at ran
      contradiction
    · have suits : (∀ c, some b = some c → Suits cwd c path) ↔ Suits cwd b path :=
        ⟨fun all => all b rfl, fun one c here => Option.some.inj here ▸ one⟩
      rw [written fun c here => Option.some.inj here ▸ proper, stands_iff_suits proper, suits]

end Entries

/-! The run of the script. -/

section Runs
variable {readlink : Str → Option Str} {base : Option Str} {fuel more : Nat}
  {deps out libs : List Str} {dep : Str}

theorem chase_mono (ran : chase readlink base fuel deps dep = .ok out) (enough : fuel ≤ more) :
    chase readlink base more deps dep = .ok out := by
  induction fuel generalizing more deps dep with
  | zero => contradiction
  | succ fuel ih =>
    obtain ⟨more, rfl⟩ := Nat.exists_eq_add_one_of_ne_zero (by omega : more ≠ 0)
    simp only [chase] at ran ⊢
    split at ran
    · exact ran
    · obtain ⟨entry, written, further⟩ := ok_of_bind ran
      rw [written, ok_bind]
      exact ih further (by omega)

theorem library_mono (ran : library readlink base fuel deps dep = .ok out)
    (enough : fuel ≤ more) : library readlink base more deps dep = .ok out := by
  obtain ⟨entry, written, further⟩ := ok_of_bind ran
  rw [library, written, ok_bind]
  exact chase_mono further enough

theorem foldlM_library_mono (ran : libs.foldlM (library readlink base fuel) deps = .ok out)
    (enough : fuel ≤ more) : libs.foldlM (library readlink base more) deps = .ok out := by
  induction libs generalizing deps with
  | nil => exact ran
  | cons dep libs ih =>
    rw [List.foldlM_cons] at ran ⊢
    obtain ⟨middle, first, others⟩ := ok_of_bind ran
    rw [library_mono first enough, ok_bind]
    exact ih others

theorem scan_unique {out' : List Str} (ran : scan readlink base fuel libs = .ok out)
    (again : scan readlink base more libs = .ok out') : out = out' := by
  rcases Nat.le_total fuel more with less | less
  · exact Except.ok.inj ((foldlM_library_mono ran less).symm.trans again)
  · exact Except.ok.inj (ran.symm.trans (foldlM_library_mono again less))

theorem chase_walk {rest : List Str}
    (walked : walk (fun path => (readlink path).map (lookedUp path)) fuel dep = some (dep :: rest))
    (proper : ∀ path ∈ rest, ∀ b, base = some b → path ≠ b) (deps : List Str) :
    chase readlink base fuel deps dep = .ok (deps ++ rest.map (entry base)) := by
  induction fuel generalizing deps dep rest with
  | zero => contradiction
  | succ fuel ih =>
    rw [chase]
    rcases walk_cases walked with ⟨last, alone⟩ | ⟨path, less, tail, same, next, further, whole⟩
    · obtain rfl := List.tail_eq_of_cons_eq alone
      rw [Option.map_eq_none_iff.mp last]
      simp
    · obtain ⟨target, found, rfl⟩ := Option.map_eq_some_iff.mp next
      obtain rfl := Nat.succ.inj same
      obtain rfl := List.tail_eq_of_cons_eq whole
      obtain ⟨behind, rfl⟩ := head_walk further
      rw [List.forall_mem_cons] at proper
      simp only [found]
      rw [transform_eq proper.1, ok_bind, ih further proper.2]
      simp

/-- Among paths that lead to one another the loop does not come to an end. -/
theorem chase_trapped {trap : List Str}
    (trapped : ∀ path ∈ trap, ∃ target, readlink path = some target ∧ lookedUp path target ∈ trap)
    (here : dep ∈ trap) (fuel : Nat) (deps : List Str) :
    ∃ stop, chase readlink base fuel deps dep = .error stop := by
  induction fuel generalizing deps dep with
  | zero => exact ⟨.outOfFuel, rfl⟩
  | succ fuel ih =>
    obtain ⟨target, found, there⟩ := trapped dep here
    simp only [chase, found]
    cases transform base (lookedUp dep target) with
    | error stop => exact ⟨stop, rfl⟩
    | ok entry => exact ih there (deps ++ [entry])

end Runs

/-- What is written for a list of libraries whose chains the script follows. -/
def entries (links : Links) (base : Option Str) (libs : List Str) : List Str :=
  libs.flatMap fun dep => (links.chain dep).map (entry base)

section Chains
variable {links : Links} {cwd : Str} {base : Option Str} {libs deps : List Str} {dep line : Str}

theorem follows_iff : Follows links dep ↔
    ∀ path ∈ links.chain dep, ∀ target, links.readlink path = some target → '/' ∈ target →
      target.head? ≠ some '/' → '/' ∉ path := by
  rw [Follows, Links.chain, walk_eq_chain_iff]
  refine forall₂_congr fun path _ => ?_
  simp only [← lookedUp_eq_resolved_iff]
  cases links.readlink path with
  | none => simp
  | some target => simp

theorem library_ends (follows : Follows links dep)
    (proper : ∀ path ∈ links.chain dep, ∀ b, base = some b → path ≠ b) :
    ∃ fuel, ∀ deps, library links.readlink base fuel deps dep =
      .ok (deps ++ (links.chain dep).map (entry base)) := by
  obtain ⟨fuel, walked⟩ := follows
  obtain ⟨rest, whole⟩ := head_walk walked
  rw [whole] at walked proper
  rw [List.forall_mem_cons] at proper
  refine ⟨fuel, fun deps => ?_⟩
  rw [library, transform_eq proper.1, ok_bind, chase_walk walked proper.2, whole]
  simp

theorem scan_ends
    (each : ∀ dep ∈ libs, ∃ fuel, ∀ deps, library links.readlink base fuel deps dep =
      .ok (deps ++ (links.chain dep).map (entry base))) :
    ∃ fuel, ∀ deps, libs.foldlM (library links.readlink base fuel) deps =
      .ok (deps ++ entries links base libs) := by
  induction libs with
  | nil => exact ⟨0, fun deps => by simp [entries, pure, Except.pure]⟩
  | cons dep libs ih =>
    rw [List.forall_mem_cons] at each
    obtain ⟨fuel, first⟩ := each.1
    obtain ⟨more, others⟩ := ih each.2
    refine ⟨max fuel more, fun deps => ?_⟩
    rw [List.foldlM_cons, library_mono (first deps) (Nat.le_max_left fuel more), ok_bind,
      foldlM_library_mono (others _) (Nat.le_max_right fuel more)]
    simp [entries]

theorem mem_lines (whole : ∀ dep ∈ deps, '\n' ∉ dep) :
    line ∈ (config deps).splitOn '\n' ↔ line ∈ deps ∨ line = [] := by
  have ordered : ∀ dep ∈ sorted deps ++ [[]], '\n' ∉ dep := by
    intro dep member
    rcases List.mem_append.mp member with member | last
    · exact whole dep ((List.mem_insertionSort _).mp member)
    · exact List.mem_singleton.mp last ▸ List.not_mem_nil
  rw [config, List.splitOn_intercalate '\n' ordered (by simp), List.mem_append, sorted,
    List.mem_insertionSort, List.mem_singleton]

theorem mem_entries :
    line ∈ entries links base libs ↔
      ∃ dep ∈ libs, ∃ path ∈ links.chain dep, entry base path = line := by
  simp only [entries, List.mem_flatMap, List.mem_map]

theorem initial_whole : ∀ dep ∈ initial, '\n' ∉ dep := by decide +kernel

theorem Rewrites.proper {path : Str} (rewrites : Rewrites cwd base path) :
    ∀ b, base = some b → path ≠ b :=
  fun b given => ((rewrites_iff.mp rewrites).1 b given).proper

theorem contained_of (follows : ∀ dep ∈ libs, Follows links dep)
    (rewrites : ∀ dep ∈ libs, ∀ path ∈ links.chain dep, Rewrites cwd base path) :
    Contained links cwd base libs := by
  have written (dep) (member : dep ∈ libs) (path) (here : path ∈ links.chain dep) :
      '\n' ∉ entry base path ∧ Stands cwd base path (entry base path) := by
    have proper := (rewrites dep member path here).proper
    obtain ⟨line, ran, whole, stands⟩ := rewrites dep member path here
    rw [transform_eq proper] at ran
    obtain rfl := Except.ok.inj ran
    exact ⟨whole, stands⟩
  obtain ⟨fuel, ran⟩ := scan_ends fun dep member => library_ends (follows dep member)
    fun path here => (rewrites dep member path here).proper
  have whole : ∀ line ∈ initial ++ entries links base libs, '\n' ∉ line := by
    refine List.forall_mem_append.mpr ⟨initial_whole, fun line member => ?_⟩
    obtain ⟨dep, reported, path, here, rfl⟩ := mem_entries.mp member
    exact (written dep reported path here).1
  refine ⟨fuel, _, ran initial, fun dep member path here => ?_⟩
  have entered : entry base path ∈ entries links base libs :=
    mem_entries.mpr ⟨dep, member, path, here, rfl⟩
  exact ⟨_, (mem_lines whole).mpr (.inl (List.mem_append_right initial entered)),
    (written dep member path here).2⟩

theorem closed_of_plain
    (plain : ∀ dep ∈ libs, ∀ path ∈ links.chain dep, Plain links cwd base path) :
    Closed links cwd base libs := by
  have follows (dep) (member : dep ∈ libs) :=
    follows_iff.mpr fun path here => (plain dep member path here).target
  have rewrites (dep) (member : dep ∈ libs) (path) (here : path ∈ links.chain dep) :=
    rewrites_iff.mpr ⟨(plain dep member path here).suits, (plain dep member path here).line⟩
  exact ⟨contained_of follows rewrites, follows, rewrites⟩

theorem not_contained {fuel : Nat} {path : Str}
    (ran : scan links.readlink base fuel libs = .ok deps)
    (whole : ∀ dep ∈ deps, '\n' ∉ dep) (member : dep ∈ libs) (here : path ∈ links.chain dep)
    (outside : ∀ b, base = some b → ¬ Inside cwd b path) (missing : path ∉ [] :: deps) :
    ¬ Contained links cwd base libs := by
  rintro ⟨more, _, again, contained⟩
  obtain rfl := scan_unique ran again
  obtain ⟨line, written, stands⟩ := contained dep member path here
  rw [mem_lines whole, stands.outside outside, or_comm, ← List.mem_cons] at written
  exact missing written

end Chains

def oneLink (link target : Str) (leaves : resolved link target ≠ link) : Links where
  readlink path := if path = link then some target else none
  acyclic := by
    refine Ends.of_rank (fun path => if path = link then 1 else 0) fun path further follows => ?_
    obtain ⟨found, here, rfl⟩ := Option.map_eq_some_iff.mp follows
    obtain ⟨rfl, same⟩ := Option.ite_none_right_eq_some.mp here
    obtain rfl := Option.some.inj same
    simp [leaves]

/-- A library that is a link to `../lib64`. -/
def libz : Links :=
  oneLink "/usr/lib/libz.so".toList "../lib64/libz.so.1".toList (by decide +kernel)

/-- For every map of links, every base and every list of libraries: the file has every path on
the chains, each as it is to be written, exactly if every path on the chains is plain. -/
theorem dependencies_closed_iff (links : Links) (cwd : Str) (base : Option Str)
    (libs : List Str) : Closed links cwd base libs ↔
      ∀ dep ∈ libs, ∀ path ∈ links.chain dep, Plain links cwd base path := by
  constructor
  · intro closed dep member path here
    obtain ⟨suits, line⟩ := rewrites_iff.mp (closed.rewrites dep member path here)
    exact ⟨follows_iff.mp (closed.follows dep member) path here, suits, line⟩
  · exact closed_of_plain

/-- The file that a relative path leads to is missed, and a library beside the base is taken for
one inside it. -/
theorem libz_not_contained :
    ¬ Contained libz "/".toList none ["/usr/lib/libz.so".toList] ∧
      ¬ Contained libz "/".toList (some "/build".toList) ["/buildtools/libm.so".toList] := by
  constructor
  · have ran : scan libz.readlink none 2 ["/usr/lib/libz.so".toList] =
        .ok (initial ++ ["/usr/lib/libz.so".toList, "../lib64/libz.so.1".toList]) := by
      decide +kernel
    have here : "/usr/lib/../lib64/libz.so.1".toList ∈ libz.chain "/usr/lib/libz.so".toList := by
      refine mem_chain_next ?_ (mem_chain_self libz.acyclic _)
      decide +kernel
    exact not_contained ran (by decide +kernel) List.mem_cons_self here (by simp)
      (by decide +kernel)
  · have ran : scan libz.readlink (some "/build".toList) 1 ["/buildtools/libm.so".toList] =
        .ok (initial ++ ["./lib/tools/libm.so".toList]) := by
      decide +kernel
    have outside : ¬ Inside "/".toList "/build".toList "/buildtools/libm.so".toList := by
      rw [Inside, ← List.isPrefixOf_iff_prefix]
      decide +kernel
    exact not_contained ran (by decide +kernel) List.mem_cons_self (mem_chain_self _ _)
      (fun b given => Option.some.inj given ▸ outside) (by decide +kernel)

/-- A link from `/usr/lib`, and one from below the working directory to it. -/
def backAndForth : Links where
  readlink path :=
    if path = "/usr/lib/libz.so".toList then some "z/libz.so".toList
    else if path = "z/libz.so".toList then some "/usr/lib/libz.so".toList
    else none
  acyclic := by
    refine Ends.of_rank (fun path => if path = "z/libz.so".toList then 2
      else if path = "/usr/lib/libz.so".toList then 1 else 0) fun path further follows => ?_
    obtain ⟨target, found, rfl⟩ := Option.map_eq_some_iff.mp follows
    split at found
    next here =>
      obtain rfl := Option.some.inj found
      subst here
      decide +kernel
    next =>
      obtain ⟨rfl, same⟩ := Option.ite_none_right_eq_some.mp found
      obtain rfl := Option.some.inj same
      decide +kernel

/-- No chain is endless there, and still the script goes from one link to the other for ever. -/
theorem scan_endless (base : Option Str) (fuel : Nat) :
    ∃ stop, scan backAndForth.readlink base fuel ["/usr/lib/libz.so".toList] = .error stop := by
  have trapped : ∀ path ∈ ["/usr/lib/libz.so".toList, "z/libz.so".toList],
      ∃ target, backAndForth.readlink path = some target ∧
        lookedUp path target ∈ ["/usr/lib/libz.so".toList, "z/libz.so".toList] := by
    simp only [List.forall_mem_cons, List.not_mem_nil, false_implies, implies_true, and_true]
    constructor
    · exact ⟨"z/libz.so".toList, by decide +kernel, by decide +kernel⟩
    · exact ⟨"/usr/lib/libz.so".toList, by decide +kernel, by decide +kernel⟩
  simp only [scan, List.foldlM_cons, List.foldlM_nil, library]
  cases transform base "/usr/lib/libz.so".toList with
  | error stop => exact ⟨stop, rfl⟩
  | ok entry =>
    obtain ⟨stop, ran⟩ := chase_trapped trapped List.mem_cons_self fuel (initial ++ [entry])
    exact ⟨stop, by rw [ok_bind, ran]; rfl⟩

/-- A library of the build that is found through a bare name. -/
example : scan (oneLink "/build/libz.so".toList "libz.so.1".toList (by decide +kernel)).readlink
    (some "/build".toList) 2 ["/build/libz.so".toList] =
      .ok (initial ++ ["./lib/libz.so".toList, "./lib/libz.so.1".toList]) := by decide +kernel

end PBus.ScanDeps
