import Mathlib.Algebra.Group.Int.Defs
import Mathlib.Algebra.Group.Nat.Defs
import Mathlib.Data.List.Basic

/-! Class, service and object identifiers: `ClassId.h`, `ClassId.cpp`, `ObjectId.h` and
`ObjectId.cpp`. A `std::string` is the list of its characters. -/
namespace PBus

abbrev Str := List Char

/-- `isspace` in the C locale. -/
def isSpace (c : Char) : Bool :=
  c == ' ' || c == '\t' || c == '\n' || c == '\x0b' || c == '\x0c' || c == '\r'

/-- The number at the front of a text: blanks, a sign, digits. No digits read as zero. -/
def leadingInt (s : Str) : Int :=
  match s.dropWhile isSpace with
  | '-' :: t => -(Nat.ofDigitChars 10 (t.takeWhile Char.isDigit) 0 : Int)
  | '+' :: t => Nat.ofDigitChars 10 (t.takeWhile Char.isDigit) 0
  | t => Nat.ofDigitChars 10 (t.takeWhile Char.isDigit) 0

/-- `strtol` in base ten for a 64-bit `long`: values outside its range are clamped. -/
def strtol (s : Str) : Int := max (-2 ^ 63) (min (2 ^ 63 - 1) (leadingInt s))

/-- `atoi`. The standard leaves values outside `int` undefined; this is the usual
library's definition, the truncated result of `strtol`. -/
def atoi (s : Str) : Int32 := Int32.ofInt (strtol s)

def leadingDigits (s : Str) : Str :=
  match s.dropWhile isSpace with
  | '-' :: t | '+' :: t => t.takeWhile Char.isDigit
  | t => t.takeWhile Char.isDigit

/-- `std::stoi`, with the texts of `std::invalid_argument` and `std::out_of_range`. -/
def stoi (s : Str) : Except Str Int32 :=
  if leadingDigits s = [] then .error "stoi".toList
  else if leadingInt s < -2 ^ 31 ∨ 2 ^ 31 ≤ leadingInt s then .error "stoi".toList
  else .ok (Int32.ofInt (leadingInt s))

/-- What `<<` prints for an unsigned number. -/
def decimal (n : UInt32) : Str := Nat.toDigits 10 n.toNat

structure ClassId where
  name : Str
  version : UInt32
  deriving DecidableEq, Repr

abbrev ServiceId := ClassId

namespace ClassId

/-- The constructor. The text before the first dash is the name and what follows it the
version; a name without a dash gets version 1, whatever `version` says. -/
def new (name : Str) (_version : UInt32 := 1) : Except Str ClassId :=
  match name.findIdx? (· == '-') with
  | some pos =>
    let version := (atoi (name.drop (pos + 1))).toUInt32
    if version ≤ 0 then .error "invalid version".toList
    else .ok ⟨name.take pos, version⟩
  | none => .ok ⟨name, 1⟩

/-- `ClassId::FromString`. -/
def fromString (str : Str) : Except Str ClassId :=
  match str.findIdx? (· == '-') with
  | none => .error "no version in service id".toList
  | some atPos => do
    let version ← stoi (str.drop (atPos + 1))
    new (str.take atPos) version.toUInt32

def toString (c : ClassId) : Str := c.name ++ '-' :: decimal c.version

/-- No dash separates a version from the name. -/
def DashFree (name : Str) : Prop := '-' ∉ name

instance (name : Str) : Decidable (DashFree name) := inferInstanceAs (Decidable (_ ∉ _))

variable {name : Str} {m n : UInt32}

theorem findIdx_dashFree (h : DashFree name) : name.findIdx? (· == '-') = none := by
  rw [List.findIdx?_eq_none_iff]
  intro c hc
  rw [beq_eq_false_iff_ne]
  rintro rfl
  exact h hc

/-- A dash-free name makes a version 1 identifier: the second argument is not used. -/
theorem new_dashFree (h : DashFree name) (version : UInt32) : new name version = .ok ⟨name, 1⟩ := by
  rw [new, findIdx_dashFree h]

end ClassId

structure ObjectId where
  type : ClassId
  id : UInt32
  deriving DecidableEq, Repr

end PBus
