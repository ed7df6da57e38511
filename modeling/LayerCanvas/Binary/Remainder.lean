/-!
The remainder of one double-precision number by another. The remainder of two floats is itself a
float, so it is computed exactly: both are brought to a common exponent and the significands are
divided as natural numbers. `modulo` then moves a negative remainder into the range of the
divisor.
-/

set_option autoImplicit false
set_option relaxedAutoImplicit false

namespace LayerCanvas.Binary

open Float.Model (UnpackedFloat)

/-- The remainder of the truncated quotient of two unpacked floats. It has the sign of the
dividend; it does not exist for an infinite dividend or a zero divisor, and an infinite divisor
leaves the dividend as it is. -/
def UnpackedFloat.remainder : UnpackedFloat → UnpackedFloat → UnpackedFloat
  | .notANumber, _ | _, .notANumber | .infinity _, _ | _, .zero _ => .notANumber
  | .zero sign, _ => .zero sign
  | dividend, .infinity _ => dividend
  | .finite sign m e _, .finite _ n f _ =>
    let exponent := if e ≤ f then e else f
    let left := (m <<< (e - exponent).toNat) % (n <<< (f - exponent).toNat)
    if left = 0 then .zero sign else .round .binary64 sign left exponent

/-- The remainder of `x` by `y`, with the sign of `x`. -/
def remainder (x y : Float) : Float :=
  .ofModel (.pack (UnpackedFloat.remainder x.toModel.unpack y.toModel.unpack))

/-- The remainder of `x` by `y` that is not negative. -/
def modulo (x y : Float) : Float :=
  let left := remainder x y
  if left < 0 then left + y.abs else left

end LayerCanvas.Binary
