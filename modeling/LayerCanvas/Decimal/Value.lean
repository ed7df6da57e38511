import LayerCanvas.Binary.Precision
import LayerCanvas.Decimal.Numeral

/-!
The machine number that a numeral stands for. As many leading digits as fit into a 64-bit word
form the significand; the digits that no longer fit before the point only count towards the
exponent, and after the point they are dropped. The significand is converted and then multiplied
or divided by one power of ten, so the result can miss the nearest double by a rounding, and a
numeral past the range of doubles has no value at all.
-/

set_option autoImplicit false
set_option relaxedAutoImplicit false

namespace LayerCanvas.Numeral

/-- Appends digits to a significand for as long as it stays below `2 ^ 64`, and returns it with
the digits left over. -/
def absorb (significand : Nat) : List Digit → Nat × List Digit
  | [] => (significand, [])
  | d :: rest =>
    let next := significand * 10 + d.val
    if next < UInt64.size then absorb next rest else (significand, d :: rest)

/-- A number written without fraction and exponent, whose size fits a machine integer: a word of
64 bits, or for a negative one a signed word. A negative zero is not an integer. -/
def integer? (n : Numeral) : Option Int :=
  if n.fraction = [] ∧ n.exponent = none then
    let (size, rest) := absorb 0 n.whole
    if rest ≠ [] then none
    else if n.negative then
      (if 0 < size ∧ 2 * size ≤ UInt64.size then some (-(size : Int)) else none)
    else some size
  else none

/-- The double nearest to a power of ten, up to the largest there is. -/
def powerOfTen (k : Nat) : Float := Float.ofScientific 1 false k

/-- A significand times a power of ten, in at most two roundings after the conversion. There is no
result when it is infinite. Below the range of the powers of ten the division is made in two steps,
and any word is zero after two of the largest. -/
def scale? (significand : Nat) (exponent : Int) : Option Float :=
  let f := Float.ofNat significand
  if 308 < exponent then (if significand = 0 then some f else none)
  else if 0 ≤ exponent then
    let scaled := f * powerOfTen exponent.toNat
    if Scalar.isFinite scaled then some scaled else none
  else if -308 ≤ exponent then some (f / powerOfTen (-exponent).toNat)
  else if -616 ≤ exponent then
    some (f / powerOfTen 308 / powerOfTen (-(exponent + 308)).toNat)
  else some (f / powerOfTen 308 / powerOfTen 308)

/-- The value of a numeral read as a decimal fraction. -/
def decimal? (n : Numeral) : Option Float :=
  let (whole, dropped) := absorb 0 n.whole
  let (significand, rest) := absorb whole n.fraction
  let shift : Int := dropped.length - (n.fraction.length - rest.length : Nat)
  let power : Int :=
    match n.exponent with
    | none => 0
    | some e => if e.negative then -(Digit.value e.digits : Int) else Digit.value e.digits
  (scale? significand (shift + power)).map fun f ↦ if n.negative then -f else f

/-- The double that a numeral stands for. -/
def toFloat? (n : Numeral) : Option Float :=
  match n.integer? with
  | some (.ofNat size) => some (Float.ofNat size)
  | some (.negSucc size) => some (-Float.ofNat (size + 1))
  | none => n.decimal?

/-- The single-precision number that a numeral stands for. An integer is rounded once; anything
else goes through a double, and past the range it is infinite. -/
def toFloat32? (n : Numeral) : Option Float32 :=
  match n.integer? with
  | some (.ofNat size) => some (Float32.ofNat size)
  | some (.negSucc size) => some (-Float32.ofNat (size + 1))
  | none => n.decimal?.map Binary.narrow

end LayerCanvas.Numeral
