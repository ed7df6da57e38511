import LayerCanvas.Decimal.Layout
import LayerCanvas.Decimal.Value

/-!
JSON values. A number is kept as the numeral that was written, and the members of an object are
kept in their order, repetitions included; what they mean is decided by whoever reads the value.
-/

set_option autoImplicit false
set_option relaxedAutoImplicit false

namespace LayerCanvas

/-- A JSON value. A string that escapes one half of a surrogate pair without the other is well
formed but stands for no text, so strings and keys are optional texts. -/
inductive Json where
  | null
  | bool (b : Bool)
  | number (n : Numeral)
  | text (t : Option String)
  | array (items : List Json)
  | object (members : List (Option String × Json))

namespace Json

/-- The JSON string of a text. -/
def ofString (s : String) : Json := .text (some s)

/-- The JSON number of a natural number. -/
def ofNat (n : Nat) : Json := .number (.ofNat n)

/-- The JSON number of a double; `null` when it is not finite. -/
def ofFloat (x : Float) : Json := ((Decimal.ofFloat? x).map .number).getD .null

/-- The JSON number of a single-precision number; `null` when it is not finite. -/
def ofFloat32 (x : Float32) : Json := ((Decimal.ofFloat32? x).map .number).getD .null

/-- An object with the given members. -/
def ofMembers (members : List (String × Json)) : Json :=
  .object (members.map fun m ↦ (some m.1, m.2))

/-- An object whose members are put into the order of their keys. -/
def ofMembersByKey (members : List (String × Json)) : Json :=
  ofMembers (members.mergeSort fun a b ↦ a.1 ≤ b.1)

/-- The text of a string. -/
def toString? : Json → Option String
  | .text t => t
  | _ => none

/-- A truth value. -/
def toBool? : Json → Option Bool
  | .bool b => some b
  | _ => none

/-- The items of an array, all of which must be readable. -/
def toList? {α : Type} (read : Json → Option α) : Json → Option (List α)
  | .array items => items.mapM read
  | _ => none

/-- A number in double precision. -/
def toFloat? : Json → Option Float
  | .number n => n.toFloat?
  | _ => none

/-- A number in single precision. -/
def toFloat32? : Json → Option Float32
  | .number n => n.toFloat32?
  | _ => none

end Json

end LayerCanvas
