import LayerCanvas.Json.Reader
import LayerCanvas.Json.Writer
import LayerCanvas.Layer.Json
import LayerCanvas.Snapshot.Basic

/-!
Snapshots as JSON. The state of a connection's animation is not saved; where a text gives it, it is
read, and otherwise the connection is at rest.
-/

set_option autoImplicit false
set_option relaxedAutoImplicit false

namespace LayerCanvas

namespace Connection

/-- The fields of a connection, in their order. -/
def fieldNames : List String :=
  ["id", "from", "to", "fromX", "fromY", "toX", "toY", "isAnimating", "isDeleting",
    "animationProgress"]

/-- The connection that a JSON value writes. -/
def ofJson? (v : Json) : Option Connection := do
  let r ← Record.ofJson? fieldNames v
  let id ← r.required "id" Json.toString?
  let source ← r.required "from" Json.toString?
  let target ← r.required "to" Json.toString?
  let fromX ← r.required "fromX" Json.toFloat32?
  let fromY ← r.required "fromY" Json.toFloat32?
  let toX ← r.required "toX" Json.toFloat32?
  let toY ← r.required "toY" Json.toFloat32?
  let isAnimating ← r.optional "isAnimating" Json.toBool? false
  let isDeleting ← r.optional "isDeleting" Json.toBool? false
  let progress ← r.optional "animationProgress" Json.toFloat32? 1
  pure
    { id := ⟨id⟩, source := ⟨source⟩, target := ⟨target⟩, start := ⟨fromX, fromY⟩
      stop := ⟨toX, toY⟩, isAnimating, isDeleting, progress }

/-- The JSON object of a connection. -/
def toJson (c : Connection) : Json :=
  .ofMembers
    [("id", .ofString c.id.text), ("from", .ofString c.source.text),
      ("to", .ofString c.target.text), ("fromX", .ofFloat32 c.start.x),
      ("fromY", .ofFloat32 c.start.y), ("toX", .ofFloat32 c.stop.x), ("toY", .ofFloat32 c.stop.y)]

end Connection

namespace Snapshot

/-- The fields of a snapshot, in their order. -/
def fieldNames : List String := ["nodes", "connections"]

/-- The snapshot that a JSON value writes. -/
def ofJson? (v : Json) : Option Snapshot := do
  let r ← Record.ofJson? fieldNames v
  let nodes ← r.optional "nodes" (Json.toList? Node.ofJson?) []
  let connections ← r.optional "connections" (Json.toList? Connection.ofJson?) []
  pure { nodes, connections }

/-- The snapshot that a text writes. -/
def parse? (text : String) : Option Snapshot := (Json.parse? text).bind ofJson?

/-- The JSON object of a snapshot. -/
def toJson (s : Snapshot) : Json :=
  .ofMembers
    [("nodes", .array (s.nodes.map Node.toJson)),
      ("connections", .array (s.connections.map Connection.toJson))]

/-- The text of a snapshot. -/
def render (s : Snapshot) : String := s.toJson.render

end Snapshot

/-- The JSON object of the counts. -/
def Stats.toJson (s : Stats) : Json :=
  .ofMembers [("layers", .ofNat s.layers), ("connections", .ofNat s.connections)]

end LayerCanvas
