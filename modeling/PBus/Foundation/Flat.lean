import Mathlib.Algebra.Group.Nat.Defs
import Mathlib.Data.List.Basic

/-! Flat serialization: values are written one after another without separators and read
back one at a time at a running offset. The symbols, the errors and the values are
arbitrary; the only law asked of a codec is that reading undoes writing. -/
namespace Flat
variable {σ ε α : Type}

/-- `read` yields the value at the front of its input and how many symbols it used. -/
structure Codec (σ ε α : Type) where
  write : α → List σ
  read : List σ → Except ε (α × Nat)

/-- Reading undoes writing whatever follows, and uses exactly what was written. -/
def Codec.Lawful (c : Codec σ ε α) : Prop :=
  ∀ a rest, c.read (c.write a ++ rest) = .ok (a, (c.write a).length)

/-- One read of a buffer at an offset, with the offset after it. -/
def Codec.readAt (c : Codec σ ε α) (data : List σ) (offset : Nat) : Except ε (α × Nat) :=
  match c.read (data.drop offset) with
  | .ok (a, used) => .ok (a, offset + used)
  | .error e => .error e

variable {c : Codec σ ε α}

theorem Codec.readAt_write (lawful : c.Lawful) {data rest : List σ} {a : α}
    (next : data.drop offset = c.write a ++ rest) :
    c.readAt data offset = .ok (a, offset + (c.write a).length) := by
  rw [readAt, next, lawful a rest]

theorem Codec.readAt_written (lawful : c.Lawful) {data : List σ} {a : α}
    (last : data.drop offset = c.write a) :
    c.readAt data offset = .ok (a, offset + (c.write a).length) := by
  apply c.readAt_write lawful
  rw [last, List.append_nil]

theorem drop_written {data written rest : List σ} (next : data.drop offset = written ++ rest) :
    data.drop (offset + written.length) = rest := by
  rw [← List.drop_drop, next, List.drop_left]

/-! Codecs for every use: sequences of any length, and numbers of a fixed width. -/

/-- Each item behind a `more`, and a `stop` at the end. The first argument bounds the items. -/
def readMany [DecidableEq σ] (item : Codec σ ε α) (more : σ) (short : ε) :
    Nat → List σ → Except ε (List α × Nat)
  | 0, _ | _, [] => .error short
  | fuel + 1, first :: rest =>
    if first = more then
      match item.read rest with
      | .error e => .error e
      | .ok (a, used) =>
        match readMany item more short fuel (rest.drop used) with
        | .error e => .error e
        | .ok (as, useds) => .ok (a :: as, 1 + used + useds)
    else .ok ([], 1)

def Codec.many [DecidableEq σ] (item : Codec σ ε α) (more stop : σ) (short : ε) :
    Codec σ ε (List α) where
  write as := as.flatMap (fun a => more :: item.write a) ++ [stop]
  read data := readMany item more short data.length data

theorem Codec.many_lawful [DecidableEq σ] {item : Codec σ ε α} (lawful : item.Lawful)
    {more stop : σ} (apart : stop ≠ more) (short : ε) : (item.many more stop short).Lawful := by
  intro as rest
  have general (fuel : Nat) (enough : as.length < fuel) :
      readMany item more short fuel ((item.many more stop short).write as ++ rest) =
        .ok (as, ((item.many more stop short).write as).length) := by
    induction as generalizing fuel with
    | nil =>
      obtain ⟨fuel, rfl⟩ := Nat.exists_eq_add_one.mpr enough
      simp [many, readMany, apart]
    | cons a as ih =>
      obtain ⟨fuel, rfl⟩ := Nat.exists_eq_add_one.mpr (Nat.zero_lt_of_lt enough)
      have next := ih fuel (by simpa using enough)
      simp only [many, List.flatMap_cons, List.cons_append, List.append_assoc] at next ⊢
      simp only [readMany, if_true, lawful a, List.drop_left, next]
      simp only [List.length_append, List.length_cons, Nat.add_comm 1]
      congr 2
      omega
  refine general _ ?_
  have each : as.length ≤ (as.flatMap fun a => more :: item.write a).length := by
    clear general
    induction as with
    | nil => simp
    | cons a as ih =>
      simp only [List.flatMap_cons, List.length_append, List.length_cons]
      omega
  simp only [many, List.length_append, List.length_cons]
  omega

def littleEndian : Nat → Nat → List UInt8
  | 0, _ => []
  | width + 1, n => n.toUInt8 :: littleEndian width (n / 256)

def ofLittleEndian (b : List UInt8) : Nat := b.foldr (fun c rest => c.toNat + 256 * rest) 0

@[simp] theorem littleEndian_length (width n : Nat) : (littleEndian width n).length = width := by
  induction width generalizing n with
  | zero => rfl
  | succ width ih => simp [littleEndian, ih]

theorem ofLittleEndian_littleEndian {width n : Nat} (fits : n < 256 ^ width) :
    ofLittleEndian (littleEndian width n) = n := by
  induction width generalizing n with
  | zero => simp_all [littleEndian, ofLittleEndian]
  | succ width ih =>
    have rest := ih (n := n / 256) (by
      rw [Nat.div_lt_iff_lt_mul (by decide), ← Nat.pow_succ]
      exact fits)
    simp only [ofLittleEndian] at rest
    simp only [littleEndian, ofLittleEndian, List.foldr_cons, rest, Nat.toUInt8,
      UInt8.toNat_ofNat']
    omega

def Codec.fixed (width : Nat) (toNat : α → Nat) (ofNat : Nat → α) (short : ε) :
    Codec UInt8 ε α where
  write a := littleEndian width (toNat a)
  read b :=
    if width ≤ b.length then .ok (ofNat (ofLittleEndian (b.take width)), width) else .error short

theorem Codec.fixed_lawful {width : Nat} {toNat : α → Nat} {ofNat : Nat → α}
    (fits : ∀ a, toNat a < 256 ^ width) (back : ∀ a, ofNat (toNat a) = a) (short : ε) :
    (Codec.fixed width toNat ofNat short).Lawful := by
  intro a rest
  have length := littleEndian_length width (toNat a)
  simp only [fixed, List.length_append, length]
  rw [if_pos (Nat.le_add_right _ _), List.take_left' length,
    ofLittleEndian_littleEndian (fits a), back]

end Flat
