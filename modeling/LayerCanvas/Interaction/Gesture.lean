import LayerCanvas.Graph.Hit
import LayerCanvas.Interaction.Input
import LayerCanvas.Viewport.Basic

/-!
Gestures. The pointer drags a node, pans the view or draws a connection, one at a time; pressing
begins a gesture and releasing ends it. The machine looks at the event, at what lies under the
pointer and at the view, and answers with the actions to be taken; it changes nothing but its own
state.
-/

set_option autoImplicit false
set_option relaxedAutoImplicit false

namespace LayerCanvas

/-- The gesture under way. -/
inductive Gesture
  | idle
  /-- A node is dragged; the pointer holds it at this distance from its corner. -/
  | dragging (id : NodeId) (grip : Point)
  | panning
  /-- A connection is drawn from a dot to the pointer, on the canvas. -/
  | connecting (source : Dot) (pointer : Point)
  deriving DecidableEq

/-- A change that a gesture asks for. -/
inductive Action
  | select (id : Option NodeId)
  | bringToFront (id : NodeId)
  /-- Moves the corner of a node to a point of the canvas. -/
  | moveNode (id : NodeId) (origin : Point)
  | startPan (pointer : Point)
  | updatePan (pointer : Point)
  | endPan
  | zoom (direction : ZoomDirection) (center : Point)
  | connect (source target : NodeId)
  | deleteConnection (id : ConnectionId)
  deriving DecidableEq

namespace Gesture

/-- Whether a connection is being drawn. -/
def isConnecting : Gesture → Bool
  | .connecting _ _ => true
  | _ => false

/-- The connection that is being drawn: where it begins, and where the pointer is. -/
def drawn? : Gesture → Option (Dot × Point)
  | .connecting source pointer => some (source, pointer)
  | _ => none

/-- Where a dragged node goes: to the pointer, less the grip. -/
def dragTo (pointer grip : Point) : Point := ⟨pointer.x - grip.x, pointer.y - grip.y⟩

/-- Begins to pan, which a locked view does not allow. -/
def beginPan (pointer : Point) (view : Viewport) : Gesture × List Action :=
  if view.locked then (.idle, []) else (.panning, [.startPan pointer])

/-- A press. While a connection is drawn, a press on the empty canvas gives it up and any other is
passed over. The middle button pans, and so does the primary one on the empty canvas. -/
def press (g : Gesture) (p : Point) (button : Button) (modifiers : Modifiers) (hit : Hit)
    (view : Viewport) : Gesture × List Action :=
  let pointer := view.transform.toCanvas p
  if g.isConnecting then (if hit = .canvas then .idle else g, [])
  else if button = .middle ∨ (button = .primary ∧ modifiers.command ∧ hit = .canvas) then
    beginPan p view
  else if button ≠ .primary then (g, [])
  else
    match hit with
    | .dot d => (if d.kind = .output then .connecting d pointer else g, [])
    | .deleteTarget id => (.idle, [.deleteConnection id])
    | .node id origin =>
      (.dragging id ⟨pointer.x - origin.x, pointer.y - origin.y⟩,
        [.select (some id), .bringToFront id])
    | .canvas =>
      let (g, actions) := beginPan p view
      (g, .select none :: actions)

/-- A move of the pointer. -/
def drag (g : Gesture) (p : Point) (view : Viewport) : Gesture × List Action :=
  let pointer := view.transform.toCanvas p
  match g with
  | .idle => (g, [])
  | .dragging id grip => (g, [.moveNode id (dragTo pointer grip)])
  | .panning => (g, [.updatePan p])
  | .connecting source _ => (.connecting source pointer, [])

/-- A release, which ends the gesture. A connection is made when it ends on the input dot of another
node. -/
def release (g : Gesture) (p : Point) (hit : Hit) (view : Viewport) : Gesture × List Action :=
  let pointer := view.transform.toCanvas p
  let actions :=
    match g with
    | .idle => []
    | .dragging id grip => [.moveNode id (dragTo pointer grip)]
    | .panning => [.endPan]
    | .connecting source _ =>
      match hit with
      | .dot target =>
        if target.kind = .input ∧ target.node ≠ source.node then
          [.connect source.node target.node]
        else []
      | _ => []
  (.idle, actions)

/-- A turn of the wheel zooms about the pointer. -/
def turn (p : Point) (amount : Float32) (view : Viewport) : List Action :=
  if view.locked || amount == 0 || !Scalar.isFinite amount then []
  else [.zoom (if amount < 0 then .inward else .outward) p]

/-- Feeds one event to the machine, with what lies under the pointer. -/
def handle (g : Gesture) (event : InputEvent) (hit : Hit) (view : Viewport) :
    Gesture × List Action :=
  match event with
  | .pointerDown p button modifiers => g.press p button modifiers hit view
  | .pointerMove p _ => g.drag p view
  | .pointerUp p _ _ => g.release p hit view
  | .wheel p amount => (g, turn p amount view)

/-- Gives up the gesture under way. -/
def cancel (g : Gesture) : Gesture × List Action :=
  (.idle, if g = .panning then [.endPan] else [])

end Gesture

end LayerCanvas
