import LayerCanvas.Decimal.Shortest

/-!
How machine numbers are written. In a document a number always shows a point or an exponent, and
uses an exponent outside a range of sizes that depends on the precision. In a message it is
written out in full, without an exponent and without an empty fraction, and what is not finite has
a name. Both use the fewest digits that identify the number.
-/

set_option autoImplicit false
set_option relaxedAutoImplicit false

namespace LayerCanvas.Decimal

open Float.Model (Format UnpackedFloat)
open Float.Model.UnpackedFloat (Sign)

/-- The conventions of a written form. -/
structure Layout where
  /-- The exponents of the first digit for which the number is written without an exponent;
  none for all. -/
  plain : Option (Int × Int)
  /-- Whether a whole number is written with the fraction `.0`. -/
  showsFraction : Bool
  tie : Tie

/-- Single precision in a document: plain from a millionth to below ten to the thirteenth. -/
def Layout.single : Layout := ⟨some (-6, 12), true, .even⟩

/-- Double precision in a document: plain from ten to the minus fifth to below ten to the
sixteenth. -/
def Layout.double : Layout := ⟨some (-5, 15), true, .even⟩

/-- A number in a message. -/
def Layout.message : Layout := ⟨none, false, .up⟩

/-- Digits with a point in its place, and zeros up to it. -/
def Digits.plain (d : Digits) : List Digit × List Digit :=
  if d.lead < 0 then ([.zero], List.replicate (-d.lead - 1).toNat .zero ++ d.digits)
  else
    let places := d.lead.toNat + 1
    (d.digits.take places ++ List.replicate (places - d.digits.length) .zero, d.digits.drop places)

/-- The numeral of a number with the given digits. -/
def Layout.numeral (layout : Layout) (negative : Bool) (d : Digits) : Numeral :=
  if layout.plain.all fun range ↦ range.1 ≤ d.lead && d.lead ≤ range.2 then
    let (whole, fraction) := d.plain
    { negative, whole
      fraction := if fraction = [] && layout.showsFraction then [.zero] else fraction }
  else
    { negative
      whole := d.digits.take 1
      fraction := d.digits.drop 1
      exponent := some ⟨d.lead < 0, Digit.ofNat d.lead.natAbs⟩ }

/-- Whether a sign is written. -/
def isMinus : Sign → Bool
  | .negative => true
  | .positive => false

/-- The numeral of a finite float. Infinities and failed results have none. -/
def Layout.write? (layout : Layout) (format : Format) : UnpackedFloat → Option Numeral
  | .finite sign significand exponent _ =>
    some (layout.numeral (isMinus sign)
      ((Reach.ofFinite format significand exponent).shortest layout.tie))
  | .zero sign => some (layout.numeral (isMinus sign) ⟨[.zero], 0⟩)
  | .infinity _ | .notANumber => none

/-- A single-precision number as a document writes it. -/
def ofFloat32? (x : Float32) : Option Numeral := Layout.single.write? .binary32 x.toModel.unpack

/-- A double-precision number as a document writes it. -/
def ofFloat? (x : Float) : Option Numeral := Layout.double.write? .binary64 x.toModel.unpack

/-- A float as a message writes it. -/
def message (format : Format) (u : UnpackedFloat) : String :=
  match u with
  | .notANumber => "NaN"
  | .infinity .positive => "inf"
  | .infinity .negative => "-inf"
  | u => String.ofList (((Layout.message.write? format u).map Numeral.chars).getD [])

end LayerCanvas.Decimal

namespace LayerCanvas

/-- A single-precision number as a message writes it. -/
def messageOfFloat32 (x : Float32) : String := Decimal.message .binary32 x.toModel.unpack

/-- A double-precision number as a message writes it. -/
def messageOfFloat (x : Float) : String := Decimal.message .binary64 x.toModel.unpack

end LayerCanvas
