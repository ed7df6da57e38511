import LayerCanvas.Painting.Curve
import LayerCanvas.Painting.Overlay
import LayerCanvas.Graph.Basic
import LayerCanvas.Viewport.Transform

/-!
Painting the canvas as a vector scene: a list of shapes to be filled or stroked, each with a colour
and the map from the canvas to the screen. Connections are painted first, then the nodes, then the
line that is being drawn.
-/

set_option autoImplicit false
set_option relaxedAutoImplicit false

namespace LayerCanvas

/-- A colour with its opacity, each part from 0 to 255. -/
structure Color where
  red : Nat
  green : Nat
  blue : Nat
  opacity : Nat := 255
  deriving DecidableEq

/-- The colours of a scene. -/
structure Palette where
  nodeFill : Color := ⟨0xFF, 0xFF, 0xFF, 0xFF⟩
  nodeBorder : Color := ⟨0xE5, 0xE7, 0xEB, 0xFF⟩
  nodeSelected : Color := ⟨0x3B, 0x82, 0xF6, 0xFF⟩
  inputDot : Color := ⟨0x3B, 0x82, 0xF6, 0xFF⟩
  outputDot : Color := ⟨0x22, 0xC5, 0x5E, 0xFF⟩
  line : Color := ⟨0x6B, 0x72, 0x80, 0xFF⟩
  lineHovered : Color := ⟨0xEF, 0x44, 0x44, 0xFF⟩
  lineDeleting : Color := ⟨0xDF, 0xD1, 0xD1, 0xFF⟩
  flow : Color := ⟨0x3B, 0x82, 0xF6, 0x99⟩
  newLine : Color := ⟨0x3B, 0x82, 0xF6, 0xFF⟩
  deriving DecidableEq

/-- A rectangle with rounded corners, by its upper left and lower right corners. -/
structure RoundedRect where
  min : Point Float
  max : Point Float
  radius : Float
  deriving DecidableEq

/-- The rounded rectangle between two corners. The corners are put in order, and the radius is at
most half the shorter side. -/
def RoundedRect.between (p q : Point Float) (radius : Float) : RoundedRect :=
  let min : Point Float := ⟨Scalar.smaller p.x q.x, Scalar.smaller p.y q.y⟩
  let max : Point Float := ⟨Scalar.larger p.x q.x, Scalar.larger p.y q.y⟩
  ⟨min, max, Scalar.smaller radius (Scalar.smaller (max.x - min.x) (max.y - min.y) / 2)⟩

/-- What is painted. -/
inductive Shape
  | roundedRect (r : RoundedRect)
  | circle (c : Circle)
  | path (p : Path)
  deriving DecidableEq

/-- How a line is drawn. -/
structure StrokeStyle where
  width : Float
  dashOffset : Float := 0
  dashes : List Float := []
  deriving DecidableEq

/-- One shape of a scene. -/
inductive SceneItem
  | fill (view : Affine) (color : Color) (shape : Shape)
  | stroke (style : StrokeStyle) (view : Affine) (color : Color) (shape : Shape)
  deriving DecidableEq

/-- A scene, in the order it is painted. -/
abbrev Scene := List SceneItem

namespace Scene

/-- The radius of the corners of a node. -/
def cornerRadius : Float := 8

/-- The radius of a drawn dot. -/
def dotRadius : Float := 6

/-- Half the size of the cross in a delete target. -/
def crossSize : Float := 3.5

/-- A diagonal cross. -/
def cross (c : Point Float) : Path :=
  [.moveTo ⟨c.x - crossSize, c.y - crossSize⟩, .lineTo ⟨c.x + crossSize, c.y + crossSize⟩,
    .moveTo ⟨c.x + crossSize, c.y - crossSize⟩, .lineTo ⟨c.x - crossSize, c.y + crossSize⟩]

/-- The dot of a node. -/
def ofDot (view : Affine) (palette : Palette) (n : Node) (kind : DotKind) : SceneItem :=
  let color := match kind with
    | .input => palette.inputDot
    | .output => palette.outputDot
  .fill view color (.circle ⟨(n.anchor kind).widen, dotRadius⟩)

/-- A node: its card, the border of the card, and its two dots. -/
def ofNode (view : Affine) (palette : Palette) (n : Node) (selected : Bool) : Scene :=
  let corner : Point := ⟨n.origin.x + n.width, n.origin.y + n.height⟩
  let card := Shape.roundedRect (.between n.origin.widen corner.widen cornerRadius)
  let border := if selected then palette.nodeSelected else palette.nodeBorder
  let style : StrokeStyle := { width := if selected then 2 else 1 }
  [.fill view palette.nodeFill card, .stroke style view border card,
    ofDot view palette n .input, ofDot view palette n .output]

/-- A delete target: a disc, its border and a cross. -/
def ofTarget (view : Affine) (fill line : Color) (target : Circle) : Scene :=
  [.fill view fill (.circle target), .stroke { width := 2 } view line (.circle target),
    .stroke { width := 2 } view line (.path (cross target.center))]

/-- A connection: its curve, the flow along it once it is at rest, its arrowhead, and its delete
target while the pointer is over it or it fades. -/
def ofConnection (view : Affine) (palette : Palette) (c : Connection) (hovered : Bool) : Scene :=
  let curve := Curve.ofConnection c
  let color :=
    if c.isDeleting then palette.lineDeleting
    else if hovered then palette.lineHovered
    else palette.line
  let width := if hovered then 3 else 2
  let style : StrokeStyle :=
    if c.isAnimating then { width, dashOffset := 10, dashes := [5, 5] } else { width }
  let flow :=
    if !c.isDeleting && decide (1 ≤ curve.progress) then
      [.stroke { width := 2 } view palette.flow (.path curve.path)]
    else []
  let arrowhead :=
    if curve.showsArrowhead then [.fill view color (.path curve.arrowhead)] else []
  let radius := if hovered then Curve.targetRadius + Curve.targetGrowth else Curve.targetRadius
  let target :=
    if hovered || c.isDeleting then
      let fill := if c.isDeleting then palette.lineDeleting else palette.nodeFill
      ((curve.deleteTarget? radius).map (ofTarget view fill color)).getD []
    else []
  .stroke style view color (.path curve.path) :: flow ++ arrowhead ++ target

/-- The line that is being drawn. -/
def ofLine (view : Affine) (palette : Palette) (start stop : Point) : SceneItem :=
  .stroke { width := 2, dashes := [8, 4] } view palette.newLine
    (.path (Curve.between start stop).path)

/-- The whole canvas. -/
def ofGraph (g : Graph) (transform : Transform) (overlay : Overlay) (palette : Palette := {}) :
    Scene :=
  let view : Affine := transform.affine
  (g.connections.flatMap fun c ↦
      ofConnection view palette c (overlay.hovered = some c.id)) ++
    (g.nodes.flatMap fun n ↦ ofNode view palette n (overlay.selected = some n.id)) ++
    match overlay.line with
    | none => []
    | some (start, stop) => [ofLine view palette start stop]

end Scene

end LayerCanvas
