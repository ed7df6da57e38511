import LayerCanvas.Config.Basic
import LayerCanvas.Json.Reader
import LayerCanvas.Json.Record
import LayerCanvas.Json.Writer

/-!
Settings as JSON. Every setting may be left out, and then has its usual value; a record with all
its settings can be read back.
-/

set_option autoImplicit false
set_option relaxedAutoImplicit false

namespace LayerCanvas

namespace ViewConfig

/-- The fields of the limits of a view, in their order. -/
def fieldNames : List String :=
  ["minScale", "maxScale", "scaleStep", "panSensitivity", "fitPadding", "fitMargin"]

/-- The limits that a JSON value writes, the usual ones where it is silent. -/
def ofJson? (v : Json) : Option ViewConfig := do
  let usual : ViewConfig := .standard
  let r ← Record.ofJson? fieldNames v
  let minScale ← r.optional "minScale" Json.toFloat32? usual.minScale
  let maxScale ← r.optional "maxScale" Json.toFloat32? usual.maxScale
  let scaleStep ← r.optional "scaleStep" Json.toFloat32? usual.scaleStep
  let panSensitivity ← r.optional "panSensitivity" Json.toFloat32? usual.panSensitivity
  let fitPadding ← r.optional "fitPadding" Json.toFloat32? usual.fitPadding
  let fitMargin ← r.optional "fitMargin" Json.toFloat32? usual.fitMargin
  pure { minScale, maxScale, scaleStep, panSensitivity, fitPadding, fitMargin }

/-- The JSON object of the limits of a view. -/
def toJson (c : ViewConfig) : Json :=
  .ofMembers
    [("minScale", .ofFloat32 c.minScale), ("maxScale", .ofFloat32 c.maxScale),
      ("scaleStep", .ofFloat32 c.scaleStep), ("panSensitivity", .ofFloat32 c.panSensitivity),
      ("fitPadding", .ofFloat32 c.fitPadding), ("fitMargin", .ofFloat32 c.fitMargin)]

end ViewConfig

namespace EditorConfig

/-- The fields of the settings, in their order. -/
def fieldNames : List String :=
  ["nodeWidth", "nodeHeight", "creationMs", "deletionMs", "pointRadius", "deleteRadius", "canvas"]

/-- The settings that a JSON value writes, the usual ones where it is silent. -/
def ofJson? (v : Json) : Option EditorConfig := do
  let usual : EditorConfig := .standard
  let r ← Record.ofJson? fieldNames v
  let nodeWidth ← r.optional "nodeWidth" Json.toFloat32? usual.nodeWidth
  let nodeHeight ← r.optional "nodeHeight" Json.toFloat32? usual.nodeHeight
  let creationMs ← r.optional "creationMs" Json.toFloat? usual.creationMs
  let deletionMs ← r.optional "deletionMs" Json.toFloat? usual.deletionMs
  let pointRadius ← r.optional "pointRadius" Json.toFloat32? usual.pointRadius
  let deleteRadius ← r.optional "deleteRadius" Json.toFloat32? usual.deleteRadius
  let view ← r.optional "canvas" ViewConfig.ofJson? usual.view
  pure { nodeWidth, nodeHeight, creationMs, deletionMs, pointRadius, deleteRadius, view }

/-- The settings that a text writes, unchecked. -/
def decode? (text : String) : Option EditorConfig := (Json.parse? text).bind ofJson?

/-- The JSON object of the settings. -/
def toJson (c : EditorConfig) : Json :=
  .ofMembers
    [("nodeWidth", .ofFloat32 c.nodeWidth), ("nodeHeight", .ofFloat32 c.nodeHeight),
      ("creationMs", .ofFloat c.creationMs), ("deletionMs", .ofFloat c.deletionMs),
      ("pointRadius", .ofFloat32 c.pointRadius), ("deleteRadius", .ofFloat32 c.deleteRadius),
      ("canvas", c.view.toJson)]

/-- The text of the settings. -/
def render (c : EditorConfig) : String := c.toJson.render

end EditorConfig

/-- Why a text gives no settings: it does not write any, or they are rejected. -/
inductive ConfigParseError where
  | unreadable
  | rejected (cause : ConfigError)
  deriving DecidableEq

/-- The settings that a text writes, if they pass the check. -/
def EditorConfig.parse (text : String) : Except ConfigParseError EditorConfig :=
  match decode? text with
  | none => .error .unreadable
  | some config =>
    match config.validate with
    | .ok () => .ok config
    | .error cause => .error (.rejected cause)

end LayerCanvas
