import LayerCanvas.Scalar

/-!
Passing between the two machine precisions. A single-precision value is also a double-precision
value, so widening is exact; narrowing takes the nearest single-precision value, a tie going to
the even significand and anything past the range to infinity. Both are written on the unpacked
form of a float (sign, significand, exponent), which the logic can compute with.
-/

set_option autoImplicit false
set_option relaxedAutoImplicit false

namespace LayerCanvas

open Float.Model (Format UnpackedFloat)

/-- Two number types of which the first is the coarser: each of its values is a value of the
second, and each value of the second is rounded to one of the first. -/
class Precision (C R : Type) where
  /-- The same value in the finer type. -/
  widen : C → R
  /-- The nearest value in the coarser type. -/
  narrow : R → C

namespace Binary

/-- The value of a binary format that lies nearest to an unpacked float. -/
def nearest (format : Format) : UnpackedFloat → UnpackedFloat
  | .finite sign significand exponent _ => .round format sign significand exponent
  | special => special

/-- A single-precision value in double precision. -/
def widen (x : Float32) : Float := .ofModel (.pack (nearest .binary64 x.toModel.unpack))

/-- The single-precision value nearest to a double-precision one. -/
def narrow (x : Float) : Float32 := .ofModel (.pack (nearest .binary32 x.toModel.unpack))

/-- The natural number nearest to a single-precision value, halves going up. A value that is
negative or not a number counts as zero, and the result stops at the largest 32-bit word. -/
def roundToWord (x : Float32) : Nat :=
  let largest := UInt32.size - 1
  match x.toModel.unpack with
  | .infinity .positive => largest
  | .finite .positive significand exponent _ =>
    if 0 ≤ exponent then Nat.min largest (significand <<< exponent.toNat)
    else
      let unit := 1 <<< (-exponent).toNat
      Nat.min largest ((significand + unit / 2) / unit)
  | _ => 0

end Binary

instance : Precision Float32 Float where
  widen := Binary.widen
  narrow := Binary.narrow

end LayerCanvas
