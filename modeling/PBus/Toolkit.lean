import PBus.ClassId
import PBus.Foundation.Flat

/-! What the program uses of the toolkit's serialization: `Serialize` and `ReadSingleValue`
for the types that occur in messages. The toolkit is not part of the repository; all that is
asked of it is that reading a value undoes writing it. -/
namespace PBus
open Flat

/-- `Ty` are the types a method can return; `void` is one of them, and its only value is
written as the toolkit's `Undefined`. `initial` is what `T()` makes. -/
structure Toolkit where
  Ty : Type
  Val : Ty → Type
  tyEq : DecidableEq Ty
  initial : (t : Ty) → Val t
  u8 : Codec UInt8 Str UInt8
  u16 : Codec UInt8 Str UInt16
  u32 : Codec UInt8 Str UInt32
  string : Codec UInt8 Str Str
  value : (t : Ty) → Codec UInt8 Str (Val t)

instance (tk : Toolkit) : DecidableEq tk.Ty := tk.tyEq

/-- `ReadSingleValue<T>` undoes `Serialize` of a `T` whatever follows, and advances the offset
by what was written. -/
structure Toolkit.Lawful (tk : Toolkit) : Prop where
  u8 : tk.u8.Lawful
  u16 : tk.u16.Lawful
  u32 : tk.u32.Lawful
  string : tk.string.Lawful
  value : ∀ t, (tk.value t).Lawful

namespace Toolkit

def eof : Str := "unexpected end of data".toList

def nothing : Codec UInt8 Str Unit := .fixed 1 (fun _ => 0) (fun _ => ()) eof

/-- A toolkit that meets the laws: fixed widths, and texts character by character. Methods
return nothing or a number. -/
def plain : Toolkit where
  Ty := Bool
  Val
    | true => UInt32
    | false => Unit
  tyEq := inferInstance
  initial
    | true => 0
    | false => ()
  u8 := .fixed 1 UInt8.toNat UInt8.ofNat eof
  u16 := .fixed 2 UInt16.toNat UInt16.ofNat eof
  u32 := .fixed 4 UInt32.toNat UInt32.ofNat eof
  string := (Codec.fixed 4 Char.toNat Char.ofNat eof).many 1 0 eof
  value
    | true => .fixed 4 UInt32.toNat UInt32.ofNat eof
    | false => nothing

theorem nothing_lawful : nothing.Lawful :=
  Codec.fixed_lawful (fun _ => by decide) (fun _ => rfl) eof

theorem plain_lawful : plain.Lawful where
  u8 := Codec.fixed_lawful (fun n => n.toNat_lt) (fun _ => UInt8.ofNat_toNat) eof
  u16 := Codec.fixed_lawful (fun n => n.toNat_lt) (fun _ => UInt16.ofNat_toNat) eof
  u32 := Codec.fixed_lawful (fun n => n.toNat_lt) (fun _ => UInt32.ofNat_toNat) eof
  string := Codec.many_lawful
    (Codec.fixed_lawful (fun c => c.val.toNat_lt) (fun c => Char.ofNat_toNat c) eof) (by decide) eof
  value
    | true => Codec.fixed_lawful (fun n => n.toNat_lt) (fun _ => UInt32.ofNat_toNat) eof
    | false => nothing_lawful

end Toolkit
end PBus
