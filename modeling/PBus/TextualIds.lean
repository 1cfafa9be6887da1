import PBus.LocalBus

/-! Versions and texts of identifiers: which versions the constructor of `ClassId` lets through,
and that the text of an identifier stands for it alone, in the paths built around it too. -/
namespace PBus
namespace ClassId

/-- Only positive versions: a text with a dash is refused for a version that is zero or
negative, and otherwise split at the first dash; and an identifier built from the text has a
name without a dash and a version that is a positive `int`. -/
structure PositiveVersion (s : Str) : Prop where
  refused : ∀ name version, s = name ++ '-' :: version → DashFree name →
    -2 ^ 31 ≤ leadingInt version → leadingInt version ≤ 0 → new s = .error "invalid version".toList
  split : ∀ name version, s = name ++ '-' :: version → DashFree name →
    0 < leadingInt version → leadingInt version < 2 ^ 31 →
    ∃ id, new s = .ok id ∧ id.name = name ∧ (id.version.toNat : Int) = leadingInt version
  built : ∀ id, new s = .ok id →
    DashFree id.name ∧ 1 ≤ id.version.toNat ∧ id.version.toNat ≤ 2 ^ 31 - 1

theorem strtol_int {s : Str} (low : -2 ^ 31 ≤ leadingInt s) (high : leadingInt s < 2 ^ 31) :
    strtol s = leadingInt s := by
  simp only [strtol]
  omega

theorem toNat_version_int {s : Str} (low : 0 ≤ leadingInt s) (high : leadingInt s < 2 ^ 31) :
    ((atoi s).toUInt32.toNat : Int) = leadingInt s := by
  rw [atoi_toNat, strtol_int (by omega) high]
  omega

/-- The version field holds what `atoi` returns, modulo the sign. -/
theorem toNat_version (s : Str) :
    ((atoi s).toUInt32.toNat : Int) = (atoi s).toInt % 2 ^ 32 := by
  have bmod : (strtol s).bmod Int32.size % 2 ^ 32 = strtol s % 2 ^ 32 := Int.bmod_emod
  rw [atoi_toNat, atoi, Int32.toInt_ofInt, bmod]
  omega

theorem toInt_range (s : Str) : -2 ^ 31 ≤ (atoi s).toInt ∧ (atoi s).toInt < 2 ^ 31 :=
  ⟨Int32.le_toInt _, Int32.toInt_lt _⟩

theorem small_version_iff (s : Str) :
    (atoi s).toUInt32.toNat ≤ 2 ^ 31 - 1 ↔ 0 ≤ (atoi s).toInt := by
  have held := toNat_version s
  have range := toInt_range s
  omega

theorem toInt_atoi {s : Str} (low : -2 ^ 31 ≤ leadingInt s) (high : leadingInt s < 2 ^ 31) :
    (atoi s).toInt = leadingInt s := by
  rw [atoi, strtol_int low high]
  exact Int32.toInt_ofInt_of_le low high

theorem positiveVersion_dash {name : Str} (dashFree : DashFree name) (version : Str) :
    PositiveVersion (name ++ '-' :: version) ↔ 0 ≤ (atoi version).toInt := by
  have made := new_dash dashFree version 1
  constructor
  · intro positive
    by_cases zero : (atoi version).toUInt32 = 0
    · rw [← small_version_iff, zero]
      decide
    · rw [if_neg zero] at made
      exact (small_version_iff version).mp (positive.built _ made).2.2
  · intro signed
    constructor
    case refused =>
      intro name' version' same dashFree' low zero
      obtain ⟨rfl, rfl⟩ := split_unique dashFree dashFree' same
      rw [toInt_atoi low (by omega)] at signed
      rw [made, if_pos ((atoi_int low (by omega)).1.mpr (by omega))]
    case split =>
      intro name' version' same dashFree' positive high
      obtain ⟨rfl, rfl⟩ := split_unique dashFree dashFree' same
      have nonzero : (atoi version).toUInt32 ≠ 0 := by
        intro zero
        have := (atoi_int (by omega) high).1.mp zero
        omega
      rw [made, if_neg nonzero]
      exact ⟨_, rfl, rfl, toNat_version_int (by omega) high⟩
    case built =>
      intro id built
      rw [made] at built
      split at built
      · contradiction
      next nonzero =>
        obtain rfl := Except.ok.inj built
        refine ⟨dashFree, ?_, (small_version_iff version).mpr signed⟩
        have positive : (atoi version).toUInt32.toNat ≠ 0 := by
          intro zero
          exact nonzero (UInt32.toNat_inj.mp zero)
        exact Nat.one_le_iff_ne_zero.mpr positive

theorem positiveVersion_dashFree {s : Str} (dashFree : DashFree s) : PositiveVersion s := by
  have noDash : ∀ name version, s ≠ name ++ '-' :: version := by
    rintro name version rfl
    exact dashFree (by simp)
  constructor
  case refused => exact fun name version same => absurd same (noDash name version)
  case split => exact fun name version same => absurd same (noDash name version)
  case built =>
    intro id built
    rw [new_dashFree dashFree] at built
    obtain rfl := Except.ok.inj built
    exact ⟨dashFree, Nat.le_refl 1, show 1 ≤ 2 ^ 31 - 1 by decide⟩

end ClassId
open ClassId

/-- The constructor keeps versions positive on exactly the texts without a dash or with a
number that is not negative behind the first one; `int` numbers are what `atoi` returns. -/
theorem positive_version_iff (s : Str) :
    (PositiveVersion s ↔ ∀ name version, s = name ++ '-' :: version → DashFree name →
      0 ≤ (atoi version).toInt) ∧
    ∀ version, -2 ^ 31 ≤ leadingInt version → leadingInt version < 2 ^ 31 →
      (atoi version).toInt = leadingInt version := by
  refine ⟨?_, fun version low high => toInt_atoi low high⟩
  by_cases dash : '-' ∈ s
  · obtain ⟨name, version, rfl, dashFree⟩ := List.eq_append_cons_of_mem dash
    rw [positiveVersion_dash dashFree]
    constructor
    · intro signed name' version' same dashFree'
      obtain ⟨rfl, rfl⟩ := split_unique dashFree dashFree' same
      exact signed
    · intro all
      exact all name version rfl dashFree
  · refine iff_of_true (positiveVersion_dashFree dash) ?_
    rintro name version rfl -
    exact absurd (by simp) dash

/-- A second dash makes the version negative, and it is taken for 4294967291. -/
theorem negative_version_taken :
    new "a--5".toList = .ok ⟨['a'], 4294967291⟩ ∧ leadingInt "-5".toList = -5 ∧
    ¬ PositiveVersion "a--5".toList := by
  have made : new "a--5".toList = .ok ⟨['a'], 4294967291⟩ := by decide +kernel
  refine ⟨made, by decide +kernel, fun positive => ?_⟩
  have small := (positive.built _ made).2.2
  exact absurd small (by decide)

namespace ClassId

/-- What can be the identifier of a service: a name without a dash, a positive `int`. -/
structure Proper (c : ClassId) : Prop where
  dashFree : DashFree c.name
  positive : 1 ≤ c.version.toNat
  small : c.version.toNat ≤ 2 ^ 31 - 1

variable {c d : ClassId}

theorem leadingInt_decimal (n : UInt32) : leadingInt (decimal n) = n.toNat := by
  rw [(leading_digits (isDigit_decimal n)).2, decimal, Nat.ofDigitChars_ten_toDigits]

theorem atoi_decimal {n : UInt32} (small : n.toNat ≤ 2 ^ 31 - 1) :
    (atoi (decimal n)).toUInt32 = n := by
  have read := leadingInt_decimal n
  rw [← UInt32.toNat_inj, ← Int.natCast_inj, toNat_version_int (by omega) (by omega), read]

theorem new_toString (proper : c.Proper) : new c.toString = .ok c := by
  have nonzero : c.version ≠ 0 := by
    intro zero
    exact absurd proper.positive (by rw [zero]; decide)
  rw [ClassId.toString, new_dash proper.dashFree, atoi_decimal proper.small, if_neg nonzero]

theorem toString_injective (proper : c.Proper) (proper' : d.Proper)
    (same : c.toString = d.toString) : c = d := by
  have made := new_toString proper
  rw [same, new_toString proper', Except.ok.injEq] at made
  exact made.symm

end ClassId

namespace Session

/-- How `GetService` finds a factory: `Get` takes an identifier, so the text it is handed goes
through the constructor. -/
def factoryOf (factories : ClassId → Option φ) (classId : ClassId) : Except Str (Option φ) := do
  let key ← ClassId.new classId.toString
  return factories key

theorem factoryOf_proper {c : ClassId} (factories : ClassId → Option φ) (proper : c.Proper) :
    factoryOf factories c = .ok (factories c) := by
  simp only [factoryOf, new_toString proper, bind, Except.bind, pure, Except.pure]

end Session

namespace ServiceManager
variable {c d : ServiceId}

theorem servicePath_toString {root : Str} (same : servicePath root c = servicePath root d) :
    c.toString = d.toString := by
  simpa only [servicePath, List.append_cancel_left_eq, List.cons.injEq, true_and] using same

end ServiceManager
open ServiceManager

/-- The text of an identifier is read back as that identifier, a factory is found under it, and
no other identifier shares the text, the socket path or the directory. -/
theorem textual_id_faithful {c : ClassId} (proper : c.Proper) :
    new c.toString = .ok c ∧
    (∀ (φ : Type) (factories : ClassId → Option φ),
      Session.factoryOf factories c = .ok (factories c)) ∧
    ∀ d : ClassId, d.Proper → c ≠ d → c.toString ≠ d.toString ∧
      (∀ develMode, socketPath develMode c ≠ socketPath develMode d) ∧
      ∀ root, servicePath root c ≠ servicePath root d := by
  refine ⟨new_toString proper, fun _ factories => Session.factoryOf_proper factories proper, ?_⟩
  intro d proper' different
  have texts : c.toString ≠ d.toString := fun same =>
    different (toString_injective proper proper' same)
  refine ⟨texts, fun develMode same => ?_, fun root same => ?_⟩
  · exact texts (socketPath_toString same)
  · exact texts (servicePath_toString same)

/-- An empty name and one of digits, dots and slashes. -/
theorem textual_id_odd_names :
    socketPath false ⟨[], 11⟩ ≠ socketPath false ⟨"1/../".toList, 1⟩ := by
  have empty : ClassId.Proper ⟨[], 11⟩ := ⟨by decide, by decide, by decide⟩
  have slashes : ClassId.Proper ⟨"1/../".toList, 1⟩ := ⟨by decide +kernel, by decide, by decide⟩
  have different : (⟨[], 11⟩ : ClassId) ≠ ⟨"1/../".toList, 1⟩ := by decide +kernel
  exact ((textual_id_faithful empty).2.2 _ slashes different).2.1 false

end PBus
