import LayerCanvas.Json.Basic
import LayerCanvas.Param.Basic

/-!
Parameters as JSON. A value is written as what it is, a truth value, a number or a string, so its
kind can be read off again; a set of parameters is an object with its names in order.
-/

set_option autoImplicit false
set_option relaxedAutoImplicit false

namespace LayerCanvas

namespace ParamValue

/-- The JSON value of a parameter. -/
def toJson : ParamValue → Json
  | .bool b => .bool b
  | .number x => .ofFloat x
  | .text s => .ofString s

/-- The parameter that a JSON value writes. -/
def ofJson? : Json → Option ParamValue
  | .bool b => some (.bool b)
  | .number n => n.toFloat?.map .number
  | .text t => t.map .text
  | .null | .array _ | .object _ => none

/-- A value as a message shows it. -/
def message : ParamValue → String
  | .bool true => "true"
  | .bool false => "false"
  | .number x => messageOfFloat x
  | .text s => s

end ParamValue

namespace Params

/-- The JSON object of a set of parameters. -/
def toJson (ps : Params) : Json := .ofMembers (ps.entries.map fun p ↦ (p.1, p.2.toJson))

/-- The named values of a JSON object, all of which must be readable. -/
def entriesOfJson? : List (Option String × Json) → Option (List (String × ParamValue))
  | [] => some []
  | (key, v) :: rest => do
    let key ← key
    let value ← ParamValue.ofJson? v
    let rest ← entriesOfJson? rest
    pure ((key, value) :: rest)

/-- The parameters that a JSON object writes. Of two members with one name the later one counts. -/
def ofJson? : Json → Option Params
  | .object members => (entriesOfJson? members).map ofList
  | _ => none

end Params

end LayerCanvas
