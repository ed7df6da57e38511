import LayerCanvas.Painting.Curve
import LayerCanvas.Graph.Basic

/-!
What lies under a point of the canvas. The dots of the nodes come first, then the nodes themselves,
then the delete targets of the connections, and last the empty canvas; among several of one sort
the one painted last counts.
-/

set_option autoImplicit false
set_option relaxedAutoImplicit false

namespace LayerCanvas

/-- What lies under a point. -/
inductive Hit
  | dot (d : Dot)
  /-- A node, with its upper left corner. -/
  | node (id : NodeId) (origin : Point)
  | deleteTarget (id : ConnectionId)
  | canvas
  deriving DecidableEq

namespace Graph

/-- The topmost dot within a radius of a point. Of the two dots of one node the output comes first.
-/
def dotAt? (g : Graph) (radius : Float32) (p : Point) : Option Dot :=
  g.nodes.reverse.findSome? fun n ↦
    [n.dot .output, n.dot .input].find? fun d ↦
      d.position.squaredDistance p ≤ radius * radius

/-- The topmost node at a point. -/
def nodeAt? (g : Graph) (p : Point) : Option Node := g.nodes.reverse.find? fun n ↦ n.contains p

/-- The topmost live connection whose delete target holds a point. The target of the connection
under the pointer is enlarged. -/
def deleteTargetAt? (g : Graph) (radius : Float32) (hovered : Option ConnectionId) (p : Point) :
    Option ConnectionId :=
  (g.liveConnections.reverse.find? fun c ↦
    let radius := if hovered = some c.id then radius + Curve.targetGrowth else radius
    ((Curve.ofConnection c).deleteTarget? radius).any fun circle ↦ circle.contains p.widen).map
    Connection.id

/-- What lies under a point. -/
def hit (g : Graph) (config : EditorConfig) (hovered : Option ConnectionId) (p : Point) : Hit :=
  match g.dotAt? config.pointRadius p with
  | some d => .dot d
  | none =>
    match g.nodeAt? p with
    | some n => .node n.id n.origin
    | none =>
      match g.deleteTargetAt? config.deleteRadius hovered p with
      | some id => .deleteTarget id
      | none => .canvas

end Graph

end LayerCanvas
