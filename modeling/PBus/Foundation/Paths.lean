import PBus.Foundation.Splitting
import Mathlib.Data.List.Infix
import Mathlib.Data.List.TakeWhile

/-! Absolute paths as a kernel takes them: a text up to its first NUL, split at slashes, each
component entering a directory, leaving one or doing nothing. Links are not followed. -/
namespace Paths

abbrev Path := List Char

/-- What is left of a text that is handed over as a C string. -/
def cString (path : Path) : Path := path.takeWhile (· != '\x00')

def components (path : Path) : List Path := path.splitOn '/'

def parent : Path := ['.', '.']

/-- One component is followed from a directory, given by the names on the way to it. -/
def enter (dir : List Path) (component : Path) : List Path :=
  if component = [] ∨ component = ['.'] then dir
  else if component = parent then dir.dropLast
  else dir ++ [component]

/-- The names on the way to what a path denotes. -/
def resolve (path : Path) : List Path := (components (cString path)).foldl enter []

/-- A component that is a name and not one of the special ones. -/
structure IsName (component : Path) : Prop where
  ne_nil : component ≠ []
  ne_self : component ≠ ['.']
  ne_parent : component ≠ parent

/-- From every directory the path leads to the same place below it. -/
def Stays (path : Path) : Prop :=
  ∀ dir, (components (cString path)).foldl enter dir = dir ++ resolve path

variable {p q dir' component : Path} {dir : List Path}

theorem cString_append (terminated : '\x00' ∉ p) (q : Path) :
    cString (p ++ q) = p ++ cString q := by
  apply List.takeWhile_append_of_pos
  intro c hc
  rw [bne_iff_ne]
  rintro rfl
  exact terminated hc

theorem cString_eq (terminated : '\x00' ∉ p) : cString p = p := by
  have whole := cString_append terminated []
  rwa [List.append_nil, show cString [] = [] from rfl, List.append_nil] at whole

theorem cString_cut (nul : '\x00' ∈ p) (q : Path) : cString (p ++ q) = cString p := by
  induction p with
  | nil => exact absurd nul List.not_mem_nil
  | cons c p ih =>
    simp only [cString, List.cons_append, List.takeWhile_cons]
    by_cases first : c = '\x00'
    · simp [first]
    · have later : '\x00' ∈ p := (List.mem_cons.mp nul).resolve_left (Ne.symm first)
      have cut := ih later
      simp only [cString] at cut
      simp [first, cut]

theorem nul_notMem_cString (p : Path) : '\x00' ∉ cString p := by
  intro nul
  have kept := List.mem_takeWhile_imp nul
  exact absurd kept (by decide)

theorem components_append (p q : Path) :
    components (p ++ '/' :: q) = components p ++ components q :=
  List.splitOn_append_cons_self p q

theorem components_slashFree (slashFree : '/' ∉ p) : components p = [p] :=
  List.splitOn_eq_singleton slashFree

theorem enter_name (name : IsName component) (dir : List Path) :
    enter dir component = dir ++ [component] := by
  rw [enter, if_neg (not_or.mpr ⟨name.ne_nil, name.ne_self⟩), if_neg name.ne_parent]

theorem mem_enter (member : dir' ∈ enter dir component) : dir' ∈ dir ∨ dir' = component := by
  unfold enter at member
  split at member
  · exact .inl member
  · split at member
    · exact .inl (List.mem_of_mem_dropLast member)
    · rwa [List.mem_append, List.mem_singleton] at member

theorem mem_foldl_enter {l : List Path} (member : dir' ∈ l.foldl enter dir) :
    dir' ∈ dir ∨ dir' ∈ l := by
  induction l generalizing dir with
  | nil => exact .inl member
  | cons component l ih =>
    rcases ih member with before | later
    · rcases mem_enter before with old | rfl
      · exact .inl old
      · exact .inr List.mem_cons_self
    · exact .inr (List.mem_cons_of_mem _ later)

theorem mem_resolve (member : dir' ∈ resolve p) : '/' ∉ dir' ∧ '\x00' ∉ dir' := by
  have component := (mem_foldl_enter member).resolve_left List.not_mem_nil
  obtain ⟨slashFree, chars⟩ := Splitting.mem_splitOn component
  exact ⟨slashFree, fun nul => nul_notMem_cString p (chars _ nul)⟩

theorem resolve_append (terminated : '\x00' ∉ p) (q : Path) :
    resolve (p ++ '/' :: q) = (components (cString q)).foldl enter (resolve p) := by
  have slash : cString ('/' :: q) = '/' :: cString q := rfl
  rw [resolve, cString_append terminated, slash, components_append, List.foldl_append,
    resolve, cString_eq terminated]

theorem resolve_stays (terminated : '\x00' ∉ p) (stays : Stays q) :
    resolve (p ++ '/' :: q) = resolve p ++ resolve q := by
  rw [resolve_append terminated, stays]

theorem resolve_name (terminated : '\x00' ∉ p) (name : IsName q) (slashFree : '/' ∉ q)
    (nulFree : '\x00' ∉ q) : resolve (p ++ '/' :: q) = resolve p ++ [q] := by
  rw [resolve_append terminated, cString_eq nulFree, components_slashFree slashFree,
    List.foldl_cons, List.foldl_nil, enter_name name]

theorem foldl_enter_down {l : List Path} (down : parent ∉ l) (dir : List Path) :
    l.foldl enter dir = dir ++ l.foldl enter [] := by
  induction l generalizing dir with
  | nil => exact (List.append_nil dir).symm
  | cons component l ih =>
    rw [List.mem_cons, not_or] at down
    have entered : enter dir component = dir ++ enter [] component := by
      unfold enter
      rw [if_neg (Ne.symm down.1), if_neg (Ne.symm down.1)]
      split
      · exact (List.append_nil dir).symm
      · rfl
    rw [List.foldl_cons, List.foldl_cons, ih down.2, entered, ih down.2 (enter [] component),
      List.append_assoc]

theorem stays_of_down (down : parent ∉ components (cString p)) : Stays p :=
  foldl_enter_down down

theorem resolve_below (terminated : '\x00' ∉ p) (down : parent ∉ components (cString q)) :
    resolve p <+: resolve (p ++ '/' :: q) := by
  rw [resolve_stays terminated (stays_of_down down)]
  exact List.prefix_append _ _

end Paths
