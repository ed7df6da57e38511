import LayerCanvas.Json.Reader
import LayerCanvas.Json.Record
import LayerCanvas.Layer.Node
import LayerCanvas.Param.Json

/-!
Layers and nodes as JSON records. The type and the label of a layer must be there, and for a node
its name, place and size; everything else may be left out and is then empty.
-/

set_option autoImplicit false
set_option relaxedAutoImplicit false

namespace LayerCanvas

namespace Layer

/-- The fields of a layer, in their order. -/
def fieldNames : List String :=
  ["type", "label", "iconName", "color", "params", "inputShape", "outputShape"]

/-- The fields of a layer that a record gives. -/
def ofRecord? (r : Record) : Option Layer := do
  let type ← r.required "type" Json.toString?
  let label ← r.required "label" Json.toString?
  let iconName ← r.optional "iconName" Json.toString? ""
  let color ← r.optional "color" Json.toString? ""
  let params ← r.optional "params" Params.ofJson? .empty
  let inputShape ← r.optional "inputShape" Json.toString? ""
  let outputShape ← r.optional "outputShape" Json.toString? ""
  pure { type, label, iconName, color, params, inputShape, outputShape }

/-- The layer that a JSON value writes. -/
def ofJson? (v : Json) : Option Layer := (Record.ofJson? fieldNames v).bind ofRecord?

/-- The layer that a text writes. -/
def parse? (text : String) : Option Layer := (Json.parse? text).bind ofJson?

/-- The members that name a layer. -/
def leadingMembers (l : Layer) : List (String × Json) :=
  [("type", .ofString l.type), ("label", .ofString l.label)]

/-- The members that describe a layer. -/
def trailingMembers (l : Layer) : List (String × Json) :=
  [("iconName", .ofString l.iconName), ("color", .ofString l.color), ("params", l.params.toJson),
    ("inputShape", .ofString l.inputShape), ("outputShape", .ofString l.outputShape)]

/-- The JSON object of a layer. -/
def toJson (l : Layer) : Json := .ofMembers (l.leadingMembers ++ l.trailingMembers)

end Layer

namespace Node

/-- The fields of a node, in their order. -/
def fieldNames : List String :=
  ["id", "type", "label", "x", "y", "width", "height", "iconName", "color", "params",
    "inputShape", "outputShape"]

/-- The node that a JSON value writes. -/
def ofJson? (v : Json) : Option Node := do
  let r ← Record.ofJson? fieldNames v
  let id ← r.required "id" Json.toString?
  let layer ← Layer.ofRecord? r
  let x ← r.required "x" Json.toFloat32?
  let y ← r.required "y" Json.toFloat32?
  let width ← r.required "width" Json.toFloat32?
  let height ← r.required "height" Json.toFloat32?
  pure { id := ⟨id⟩, layer, origin := ⟨x, y⟩, width, height }

/-- The members of a node, with a choice of how its coordinates are written. -/
def members (number : Float32 → Json) (n : Node) : List (String × Json) :=
  ("id", .ofString n.id.text) :: n.layer.leadingMembers ++
    [("x", number n.origin.x), ("y", number n.origin.y), ("width", number n.width),
      ("height", number n.height)] ++ n.layer.trailingMembers

/-- The JSON object of a node. -/
def toJson (n : Node) : Json := .ofMembers (n.members .ofFloat32)

end Node

end LayerCanvas
