import PBus.ServiceManager.Start

/-! Under which identity a peer is taken in: `LocalBus::Accept` cuts it out of the path of the
peer's executable and parses it with `ClassId::FromString`, where `ClassId` itself has a
parser of its own. -/
namespace PBus

/-- `std::string::rfind` of a character. -/
def rfind (s : Str) (c : Char) : Option Nat :=
  (s.reverse.findIdx? (· == c)).map fun behind => s.length - 1 - behind

namespace LocalBus

/-- The identifier `Accept` derives from `/proc/<pid>/exe`, the key it adds the connection
under. -/
def peerId (imagePath : Str) : Except Str ServiceId :=
  match rfind imagePath '/' with
  | none => .error "invalid image path".toList
  | some slashPos => ClassId.fromString (imagePath.drop (slashPos + 1))

end LocalBus

namespace ClassId

/-- `FromString` takes the texts with a dash that the constructor takes, and makes the same of
them. -/
def ParsersAgree (s : Str) : Prop :=
  ((∃ id, fromString s = .ok id) ↔ '-' ∈ s ∧ ∃ id, new s = .ok id) ∧
    ∀ id id', fromString s = .ok id → new s = .ok id' → id = id'

/-- The text of a version is 1, has no digits, or is a number outside `int` whose low 32 bits
are zero once it is clamped to `long`. -/
def OneOrNone (version : Str) : Prop :=
  leadingInt version = 1 ∨ leadingDigits version = [] ∨
    (leadingInt version < -2 ^ 31 ∨ 2 ^ 31 ≤ leadingInt version) ∧ 2 ^ 32 ∣ strtol version

theorem drop_behind (before behind : Str) (c : Char) :
    (before ++ c :: behind).drop (before.length + 1) = behind := by
  simp

theorem findIdx_dash {name : Str} (dashFree : DashFree name) (version : Str) :
    (name ++ '-' :: version).findIdx? (· == '-') = some name.length := by
  rw [List.findIdx?_append, findIdx_dashFree dashFree, List.findIdx?_cons]
  simp

theorem split_unique {name name' : Str} (dashFree : DashFree name) (dashFree' : DashFree name')
    {version version' : Str} (same : name ++ '-' :: version = name' ++ '-' :: version') :
    name = name' ∧ version = version' := by
  have lengths := findIdx_dash dashFree version
  rw [same, findIdx_dash dashFree' version'] at lengths
  obtain ⟨names, behind⟩ := List.append_inj same (Option.some.inj lengths).symm
  exact ⟨names, (List.cons.inj behind).2⟩

theorem new_dash {name : Str} (dashFree : DashFree name) (version : Str) (n : UInt32) :
    new (name ++ '-' :: version) n =
      if (atoi version).toUInt32 = 0 then .error "invalid version".toList
      else .ok ⟨name, (atoi version).toUInt32⟩ := by
  have zero : (atoi version).toUInt32 ≤ 0 ↔ (atoi version).toUInt32 = 0 := UInt32.le_zero_iff
  simp only [new, findIdx_dash dashFree, drop_behind, List.take_left, zero]

/-- `FromString` leaves the version to a constructor that does not look at it. -/
theorem fromString_dash {name : Str} (dashFree : DashFree name) (version : Str) :
    fromString (name ++ '-' :: version) = (stoi version).map fun _ => ⟨name, 1⟩ := by
  simp only [fromString, findIdx_dash dashFree, drop_behind, List.take_left, bind, Except.bind]
  cases stoi version with
  | error e => rfl
  | ok n => exact new_dashFree dashFree _

theorem atoi_toNat (s : Str) : (atoi s).toUInt32.toNat = (strtol s % 2 ^ 32).toNat := by
  change (BitVec.ofInt 32 (strtol s)).toNat = _
  rw [BitVec.toNat_ofInt]
  rfl

theorem atoi_zero (s : Str) : (atoi s).toUInt32 = 0 ↔ 2 ^ 32 ∣ strtol s := by
  rw [← UInt32.toNat_inj, atoi_toNat]
  change _ = 0 ↔ _
  omega

theorem atoi_int {s : Str} (low : -2 ^ 31 ≤ leadingInt s) (high : leadingInt s < 2 ^ 31) :
    ((atoi s).toUInt32 = 0 ↔ leadingInt s = 0) ∧ ((atoi s).toUInt32 = 1 ↔ leadingInt s = 1) := by
  have exact' : strtol s = leadingInt s := by
    simp only [strtol]
    omega
  rw [← UInt32.toNat_inj, ← UInt32.toNat_inj, atoi_toNat, exact']
  change (_ = 0 ↔ _) ∧ (_ = 1 ↔ _)
  omega

theorem leadingInt_nil {s : Str} : leadingDigits s = [] → leadingInt s = 0 := by
  unfold leadingDigits leadingInt
  split <;> intro none <;> rw [none] <;> rfl

theorem parsersAgree_dash {name : Str} (dashFree : DashFree name) (version : Str) :
    ParsersAgree (name ++ '-' :: version) ↔ OneOrNone version := by
  have dash : '-' ∈ name ++ '-' :: version := by simp
  simp only [ParsersAgree, fromString_dash dashFree, new_dash dashFree, dash, true_and, OneOrNone]
  by_cases digits : leadingDigits version = []
  · have zero := leadingInt_nil digits
    have invalid : (atoi version).toUInt32 = 0 := (atoi_int (by omega) (by omega)).1.mpr zero
    simp [stoi, digits, invalid, Except.map]
  by_cases range : leadingInt version < -2 ^ 31 ∨ 2 ^ 31 ≤ leadingInt version
  · have rejected : stoi version = .error "stoi".toList := by
      rw [stoi, if_neg digits, if_pos range]
    have other : leadingInt version ≠ 1 := by omega
    simp only [rejected, Except.map, ← atoi_zero, digits, range, other, true_and, false_or]
    by_cases zero : (atoi version).toUInt32 = 0 <;> simp [zero]
  · have taken : stoi version = .ok (Int32.ofInt (leadingInt version)) := by
      rw [stoi, if_neg digits, if_neg range]
    obtain ⟨zero, one⟩ := atoi_int (s := version) (by omega) (by omega)
    simp only [taken, Except.map, digits, range, false_and, or_false, ← one]
    by_cases invalid : (atoi version).toUInt32 = 0
    · simp [invalid]
    · simp [invalid, eq_comm]

/-- The two parsers agree on a text exactly if it has no dash or what follows the first one
reads as version 1, or as none to both. -/
theorem parsersAgree_iff (s : Str) :
    ParsersAgree s ↔ ∀ name version, s = name ++ '-' :: version → DashFree name →
      OneOrNone version := by
  by_cases dash : '-' ∈ s
  · obtain ⟨name, version, rfl, dashFree⟩ := List.eq_append_cons_of_mem dash
    rw [parsersAgree_dash dashFree]
    refine ⟨?_, fun all => all name version rfl dashFree⟩
    intro agreed name' version' same dashFree'
    obtain ⟨-, rfl⟩ := split_unique dashFree dashFree' same
    exact agreed
  · have refused : fromString s = .error "no version in service id".toList := by
      rw [fromString, findIdx_dashFree dash]
    refine iff_of_true (by simp [ParsersAgree, refused, dash]) ?_
    rintro name version rfl -
    exact absurd (by simp) dash

theorem isDigit_decimal (n : UInt32) : ∀ c ∈ decimal n, c.isDigit = true :=
  fun _ hc => Nat.isDigit_of_mem_toDigits (by decide) (by decide) hc

theorem leading_digits {s : Str} (digits : ∀ c ∈ s, c.isDigit = true) :
    leadingDigits s = s ∧ leadingInt s = Nat.ofDigitChars 10 s 0 := by
  have unspaced : s.dropWhile isSpace = s := by
    cases s with
    | nil => rfl
    | cons c t =>
      apply List.dropWhile_cons_of_neg
      intro space
      have digit := digits c List.mem_cons_self
      simp only [isSpace, Bool.or_eq_true, beq_iff_eq] at space
      rcases space with ((((rfl | rfl) | rfl) | rfl) | rfl) | rfl <;> contradiction
  have whole : s.takeWhile Char.isDigit = s := by
    have whole := @List.takeWhile_append_of_pos _ _ _ [] digits
    rwa [List.append_nil, List.takeWhile_nil, List.append_nil] at whole
  unfold leadingDigits leadingInt
  rw [unspaced]
  split
  · exact absurd (digits '-' List.mem_cons_self) (by decide)
  · exact absurd (digits '+' List.mem_cons_self) (by decide)
  · exact ⟨whole, by rw [whole]⟩

theorem stoi_decimal {n : UInt32} (small : n.toNat < 2 ^ 31) :
    stoi (decimal n) = .ok (Int32.ofInt n.toNat) := by
  obtain ⟨digits, value⟩ := leading_digits (isDigit_decimal n)
  have some' : decimal n ≠ [] := Nat.toDigits_ne_nil
  rw [decimal, Nat.ofDigitChars_ten_toDigits, ← decimal] at value
  rw [stoi, digits, value, if_neg some', if_neg (by omega)]

end ClassId

theorem rfind_eq_none {s : Str} {c : Char} : rfind s c = none ↔ c ∉ s := by
  rw [rfind, Option.map_eq_none_iff, List.findIdx?_eq_none_iff]
  simp only [List.mem_reverse, beq_eq_false_iff_ne]
  exact ⟨fun other member => other c member rfl, fun free x hx same => free (same ▸ hx)⟩

theorem rfind_slash (dir : Str) {file : Str} (slashFree : '/' ∉ file) :
    rfind (dir ++ '/' :: file) '/' = some dir.length := by
  have behind : file.reverse.findIdx? (· == '/') = none := by
    rw [List.findIdx?_eq_none_iff]
    intro c hc
    rw [beq_eq_false_iff_ne]
    rintro rfl
    exact slashFree (List.mem_reverse.mp hc)
  have first : (dir ++ '/' :: file).reverse.findIdx? (· == '/') = some file.length := by
    rw [List.reverse_append, List.reverse_cons, List.append_assoc, List.findIdx?_append, behind]
    simp [List.findIdx?_cons]
  rw [rfind, first, Option.map_some, List.length_append, List.length_cons]
  congr 1
  omega

namespace LocalBus
open ServiceManager

theorem append_binary (root : Str) (c : ServiceId) :
    root ++ binary c = root ++ ("/packages/".toList ++ c.toString) ++ '/' :: c.toString :=
  (List.append_assoc root ("/packages/".toList ++ c.toString) ('/' :: c.toString)).symm

/-- `Accept` makes version 1 of every service out of the path of its executable. -/
theorem peerId_binary (root : Str) {c : ServiceId} (dashFree : ClassId.DashFree c.name)
    (slashFree : '/' ∉ c.name) (small : c.version.toNat < 2 ^ 31) :
    peerId (root ++ binary c) = .ok ⟨c.name, 1⟩ := by
  have file : '/' ∉ c.toString := by
    rw [ClassId.toString, List.mem_append, List.mem_cons]
    rintro (name | dash | digit)
    · exact slashFree name
    · exact absurd dash (by decide)
    · exact absurd (ClassId.isDigit_decimal c.version '/' digit) (by decide)
  rw [append_binary, peerId, rfind_slash _ file]
  simp only [ClassId.drop_behind]
  rw [ClassId.toString, ClassId.fromString_dash dashFree, ClassId.stoi_decimal small]
  rfl

end LocalBus
open ServiceManager LocalBus ClassId

/-- The parsers agree on the texts described; a peer whose executable belongs to a service is
taken for that service exactly if the version is 1, and two services get one key exactly if
they have one name. -/
theorem peer_identity_iff (s : Str) :
    (ParsersAgree s ↔ ∀ name version, s = name ++ '-' :: version → DashFree name →
      OneOrNone version) ∧
    ∀ (root : Str) (c : ServiceId), DashFree c.name → '/' ∉ c.name →
      1 ≤ c.version → c.version.toNat < 2 ^ 31 →
      (peerId (root ++ binary c) = .ok c ↔ c.version = 1) ∧
      ∀ (root' : Str) (d : ServiceId), DashFree d.name → '/' ∉ d.name →
        1 ≤ d.version → d.version.toNat < 2 ^ 31 →
        (peerId (root ++ binary c) = peerId (root' ++ binary d) ↔ c.name = d.name) := by
  refine ⟨parsersAgree_iff s, ?_⟩
  intro root c dashFree slashFree _ small
  rw [peerId_binary root dashFree slashFree small]
  constructor
  · rw [Except.ok.injEq]
    obtain ⟨name, version⟩ := c
    simp [eq_comm]
  · intro root' d dashFree' slashFree' _ small'
    rw [peerId_binary root' dashFree' slashFree' small']
    simp

theorem peer_random_generator :
    peerId ("/root".toList ++ binary ⟨"system.RandomGenerator".toList, 1⟩) =
      .ok ⟨"system.RandomGenerator".toList, 1⟩ :=
  ((peer_identity_iff []).2 "/root".toList ⟨"system.RandomGenerator".toList, 1⟩ (by decide +kernel)
    (by decide +kernel) (by decide) (by decide)).1.mpr rfl

/-- The two parsers make different versions of one text, and versions 1 and 2 of a program get
one key. -/
theorem peer_version_lost :
    fromString "a-2".toList = .ok ⟨['a'], 1⟩ ∧ new "a-2".toList = .ok ⟨['a'], 2⟩ ∧
    ¬ ParsersAgree "a-2".toList ∧
    peerId (binary ⟨['a'], 2⟩) = .ok ⟨['a'], 1⟩ ∧ peerId (binary ⟨['a'], 1⟩) = .ok ⟨['a'], 1⟩ := by
  have parsed : fromString "a-2".toList = .ok ⟨['a'], 1⟩ := by decide +kernel
  have made : new "a-2".toList = .ok ⟨['a'], 2⟩ := by decide +kernel
  refine ⟨parsed, made, fun agree => ?_, by decide +kernel, by decide +kernel⟩
  exact absurd (agree.2 _ _ parsed made) (by decide)

end PBus
