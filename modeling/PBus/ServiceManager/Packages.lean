import PBus.Foundation.Paths
import PBus.LocalBus

/-! Where the files of a started service lie: the directory and the configuration that
`Manager::RunProcess` uses before `chroot` and the executable it runs after it, for a name that
comes from another process. -/
namespace PBus
open Paths ClassId

namespace ServiceManager

/-- `Manager::Manager`: the packages root, two slashes up from the executable. The check after
the second search looks at the result of the first one. -/
def managerRoot (currentExe : Str) : Except Str Str :=
  match rfind currentExe '/' with
  | none => .error "could not find parent directory".toList
  | some slashPos =>
    match rfind (if slashPos = 0 then currentExe else currentExe.take slashPos) '/' with
    | none => .ok currentExe
    | some slashPos2 => .ok (currentExe.take slashPos2)

/-- What `RunProcess` uses: the service root, the file of `Config`, the file of `execl`. -/
structure ServiceFiles where
  serviceRoot : Str
  config : Str
  binary : Str
  deriving DecidableEq, Repr

/-- The child that `start` clones: no file is used if there is none. -/
def serviceFiles (root name : Str) (version : UInt16) : Except Str ServiceFiles := do
  let serviceId ← start name version
  return ⟨servicePath root serviceId, configPath root serviceId, binary serviceId⟩

/-- The mount point of the packages root behind `chroot`. -/
def mountedRoot : Str := "/packages".toList

namespace ServiceFiles

/-- The files lie in the packages root, before and after `chroot`. -/
structure InTree (root : Str) (files : ServiceFiles) : Prop where
  serviceRoot : resolve root <+: resolve files.serviceRoot
  config : resolve root <+: resolve files.config
  binary : resolve mountedRoot <+: resolve files.binary

/-- And there they lie in a directory that the text of the identifier names. -/
structure InPackage (root id : Str) (files : ServiceFiles) : Prop where
  serviceRoot : resolve root ++ [id] <+: resolve files.serviceRoot
  config : resolve root ++ [id] <+: resolve files.config
  binary : resolve mountedRoot ++ [id] <+: resolve files.binary

end ServiceFiles

def filesOf (root : Str) (c : ServiceId) : ServiceFiles :=
  ⟨servicePath root c, configPath root c, binary c⟩

variable {root name : Str} {version : UInt16} {c : ServiceId}

theorem managerRoot_terminated {currentExe : Str} (terminated : '\x00' ∉ currentExe)
    (found : managerRoot currentExe = .ok root) : '\x00' ∉ root := by
  unfold managerRoot at found
  split at found
  · contradiction
  · split at found
    · obtain rfl := Except.ok.inj found
      exact terminated
    · obtain rfl := Except.ok.inj found
      exact fun nul => terminated (List.mem_of_mem_take nul)

/-- The name of a service is what its client puts before the first dash. -/
theorem start_name (started : start name version = .ok c) :
    c.name = name.takeWhile (· != '-') := by
  simp only [start] at started
  by_cases dash : '-' ∈ name
  · obtain ⟨before, behind, rfl, dashFree⟩ := List.eq_append_cons_of_mem dash
    have kept : before.takeWhile (· != '-') = before := by
      rw [List.takeWhile_eq_self_iff]
      intro x hx
      rw [bne_iff_ne]
      rintro rfl
      exact dashFree hx
    rw [new_dash dashFree] at started
    split at started
    · contradiction
    · obtain rfl := Except.ok.inj started
      rw [List.takeWhile_append_of_pos (List.takeWhile_eq_self_iff.mp kept)]
      simp
  · rw [new_dashFree dash] at started
    obtain rfl := Except.ok.inj started
    refine (List.takeWhile_eq_self_iff.mpr ?_).symm
    intro x hx
    rw [bne_iff_ne]
    rintro rfl
    exact dash hx

theorem serviceFiles_eq (started : start name version = .ok c) :
    serviceFiles root name version = .ok (filesOf root c) := by
  rw [serviceFiles, started]
  rfl

theorem dash_mem_toString (c : ClassId) : '-' ∈ c.toString := by
  rw [ClassId.toString, List.mem_append]
  exact .inr List.mem_cons_self

theorem isName_of_dash {component : Str} (dash : '-' ∈ component) : IsName component := by
  constructor
  case ne_nil => exact fun nil => absurd (nil ▸ dash) List.not_mem_nil
  case ne_self => exact fun self => absurd (self ▸ dash) (by decide)
  case ne_parent => exact fun up => absurd (up ▸ dash) (by decide)

theorem isName_toString (c : ClassId) : IsName c.toString := isName_of_dash (dash_mem_toString c)

theorem mem_toString {x : Char} (dash : x ≠ '-') (digit : x.isDigit = false) :
    x ∈ c.toString ↔ x ∈ c.name := by
  rw [ClassId.toString, List.mem_append, List.mem_cons]
  constructor
  · rintro (named | same | version)
    · exact named
    · exact absurd same dash
    · rw [isDigit_decimal c.version x version] at digit
      contradiction
  · exact .inl

theorem slash_mem_toString : '/' ∈ c.toString ↔ '/' ∈ c.name := mem_toString (by decide) (by decide)

theorem nul_mem_toString : '\x00' ∈ c.toString ↔ '\x00' ∈ c.name :=
  mem_toString (by decide) (by decide)

theorem configPath_eq (root : Str) (c : ServiceId) :
    configPath root c = root ++ '/' :: (c.toString ++ '/' :: (c.toString ++ ".conf".toList)) := by
  simp only [configPath, servicePath, List.append_assoc, List.cons_append]

theorem binary_eq (c : ServiceId) :
    binary c = mountedRoot ++ '/' :: (c.toString ++ '/' :: c.toString) :=
  List.append_assoc mountedRoot ['/'] _

theorem mountedRoot_terminated : '\x00' ∉ mountedRoot := by decide +kernel

/-- A name without slash and NUL is a directory of the root, and what is asked for in it is
there. -/
theorem resolve_package {file : Str} (terminated : '\x00' ∉ root) (slashFree : '/' ∉ c.name)
    (nulFree : '\x00' ∉ c.name) (fileSlashFree : '/' ∉ file) (fileNulFree : '\x00' ∉ file)
    (isName : IsName file) :
    resolve (root ++ '/' :: (c.toString ++ '/' :: file)) =
      resolve root ++ [c.toString] ++ [file] := by
  have slashFree' : '/' ∉ c.toString := mt slash_mem_toString.mp slashFree
  have nulFree' : '\x00' ∉ c.toString := mt nul_mem_toString.mp nulFree
  have slashed : '\x00' ∉ '/' :: c.toString :=
    List.not_mem_cons_of_ne_of_not_mem (by decide) nulFree'
  have outer : '\x00' ∉ root ++ '/' :: c.toString := List.not_mem_append terminated slashed
  have inner := resolve_name outer isName fileSlashFree fileNulFree
  rw [resolve_name terminated (isName_toString c) slashFree' nulFree', List.append_assoc,
    List.cons_append] at inner
  exact inner

theorem inPackage_of_name (terminated : '\x00' ∉ root) (slashFree : '/' ∉ c.name)
    (nulFree : '\x00' ∉ c.name) : (filesOf root c).InPackage root c.toString := by
  have slashFree' : '/' ∉ c.toString := mt slash_mem_toString.mp slashFree
  have nulFree' : '\x00' ∉ c.toString := mt nul_mem_toString.mp nulFree
  constructor
  case serviceRoot =>
    change _ <+: resolve (root ++ '/' :: c.toString)
    rw [resolve_name terminated (isName_toString c) slashFree' nulFree']
  case config =>
    have conf : '/' ∉ c.toString ++ ".conf".toList ∧ '\x00' ∉ c.toString ++ ".conf".toList := by
      simp only [List.mem_append, not_or]
      exact ⟨⟨slashFree', by decide +kernel⟩, nulFree', by decide +kernel⟩
    have dash : '-' ∈ c.toString ++ ".conf".toList := List.mem_append_left _ (dash_mem_toString c)
    change _ <+: resolve (configPath root c)
    rw [configPath_eq, resolve_package terminated slashFree nulFree conf.1 conf.2
      (isName_of_dash dash)]
    exact List.prefix_append _ _
  case binary =>
    change _ <+: resolve (ServiceManager.binary c)
    rw [binary_eq, resolve_package mountedRoot_terminated slashFree nulFree slashFree' nulFree'
      (isName_toString c)]
    exact List.prefix_append _ _

theorem inPackage_iff (terminated : '\x00' ∉ root) :
    (filesOf root c).InPackage root c.toString ↔ '/' ∉ c.name ∧ '\x00' ∉ c.name := by
  constructor
  · intro inside
    have member : c.toString ∈ resolve root ++ [c.toString] := by simp
    obtain ⟨slashFree, nulFree⟩ := mem_resolve (inside.serviceRoot.subset member)
    exact ⟨fun slash => slashFree (slash_mem_toString.mpr slash),
      fun nul => nulFree (nul_mem_toString.mpr nul)⟩
  · rintro ⟨slashFree, nulFree⟩
    exact inPackage_of_name terminated slashFree nulFree

/-- A file asked for under the text of an identifier is not above the root if neither the text
nor the file has a step up. -/
theorem down_file {file : Str} (down : parent ∉ components (cString c.toString))
    (file_down : '\x00' ∉ c.toString → parent ∉ components (cString file)) :
    parent ∉ components (cString (c.toString ++ '/' :: file)) := by
  by_cases nul : '\x00' ∈ c.toString
  · rwa [cString_cut nul]
  · have slash : cString ('/' :: file) = '/' :: cString file := rfl
    rw [cString_append nul, slash, components_append, List.mem_append]
    rintro (first | second)
    · rw [cString_eq nul] at down
      exact down first
    · exact file_down nul second

theorem inTree_of_down (terminated : '\x00' ∉ root)
    (down : parent ∉ components (cString c.toString)) : (filesOf root c).InTree root := by
  constructor
  case serviceRoot => exact resolve_below terminated down
  case config =>
    change _ <+: resolve (configPath root c)
    rw [configPath_eq]
    refine resolve_below terminated (down_file down fun nul up => ?_)
    have nulFree : '\x00' ∉ c.toString ++ ".conf".toList :=
      List.not_mem_append nul (by decide +kernel)
    rw [cString_eq nulFree] at up
    rcases Splitting.mem_splitOn_append (by decide +kernel) up with up | longer
    · rw [cString_eq nul] at down
      exact down up
    · exact absurd longer (by decide +kernel)
  case binary =>
    change _ <+: resolve (ServiceManager.binary c)
    rw [binary_eq]
    exact resolve_below mountedRoot_terminated (down_file down fun _ => down)

end ServiceManager
open ServiceManager

/-- What `start` does with the name of a client: without an identifier no file is used;
otherwise the files lie in the directory of the packages root that the identifier names exactly
if the name has neither a slash nor a NUL, and in the packages root at least if no component of
the identifier's text is a step up. -/
theorem service_files_contained {currentExe root : Str} (terminated : '\x00' ∉ currentExe)
    (found : managerRoot currentExe = .ok root) (name : Str) (version : UInt16) :
    (∀ e, start name version = .error e → serviceFiles root name version = .error e) ∧
    ∀ c, start name version = .ok c → c.name = name.takeWhile (· != '-') ∧
      ∃ files, serviceFiles root name version = .ok files ∧
        (files.InPackage root c.toString ↔ '/' ∉ c.name ∧ '\x00' ∉ c.name) ∧
        (parent ∉ components (cString c.toString) → files.InTree root) := by
  have rootTerminated := managerRoot_terminated terminated found
  refine ⟨fun e refused => by rw [serviceFiles, refused]; rfl, fun c started => ?_⟩
  exact ⟨start_name started, filesOf root c, serviceFiles_eq started,
    inPackage_iff rootTerminated, inTree_of_down rootTerminated⟩

theorem random_generator_contained :
    (filesOf "/pbus".toList ⟨"system.RandomGenerator".toList, 1⟩).InPackage "/pbus".toList
      "system.RandomGenerator-1".toList := by
  have started : start "system.RandomGenerator".toList 1 =
      .ok ⟨"system.RandomGenerator".toList, 1⟩ := by decide +kernel
  have found : managerRoot "/pbus/system.ServiceManager-1/system.ServiceManager-1".toList =
      .ok "/pbus".toList := by decide +kernel
  have contained := service_files_contained (by decide +kernel) found
    "system.RandomGenerator".toList 1
  obtain ⟨-, files, used, inside, -⟩ := contained.2 _ started
  rw [serviceFiles_eq started] at used
  obtain rfl := Except.ok.inj used
  have text : ClassId.toString ⟨"system.RandomGenerator".toList, 1⟩ =
      "system.RandomGenerator-1".toList := by decide +kernel
  have inPackage := inside.mpr ⟨by decide +kernel, by decide +kernel⟩
  rwa [text] at inPackage

/-- The name `../x` is taken: all three files lie outside the packages root. -/
theorem parent_name_escapes :
    start "../x".toList 1 = .ok ⟨"../x".toList, 1⟩ ∧
    serviceFiles "/srv/pbus".toList "../x".toList 1 =
      .ok (filesOf "/srv/pbus".toList ⟨"../x".toList, 1⟩) ∧
    resolve (filesOf "/srv/pbus".toList ⟨"../x".toList, 1⟩).serviceRoot =
      ["srv".toList, "x-1".toList] ∧
    resolve (filesOf "/srv/pbus".toList ⟨"../x".toList, 1⟩).config =
      ["srv".toList, "x-1.conf".toList] ∧
    resolve (filesOf "/srv/pbus".toList ⟨"../x".toList, 1⟩).binary = ["x-1".toList] ∧
    ¬ (filesOf "/srv/pbus".toList ⟨"../x".toList, 1⟩).InTree "/srv/pbus".toList := by
  have outside : resolve (filesOf "/srv/pbus".toList ⟨"../x".toList, 1⟩).serviceRoot =
      ["srv".toList, "x-1".toList] := by decide +kernel
  refine ⟨by decide +kernel, by decide +kernel, outside, by decide +kernel, by decide +kernel, ?_⟩
  intro inside
  have below := inside.serviceRoot
  rw [outside] at below
  exact absurd below (by decide +kernel)

end PBus
