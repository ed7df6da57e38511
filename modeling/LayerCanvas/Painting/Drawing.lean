import LayerCanvas.Binary.Remainder
import LayerCanvas.Painting.Curve
import LayerCanvas.Painting.Overlay
import LayerCanvas.Graph.Basic
import LayerCanvas.Viewport.Basic

/-!
Drawing the canvas through a drawing context, which keeps a current path and current styles: the
drawing is the list of calls made on it. The connections, the nodes and the line that is being drawn
are the same as in a scene; besides them there are a background, a grid of points that moves with
the canvas, the texts of the nodes, and the zoom level wherever it is not one hundred percent.
-/

set_option autoImplicit false
set_option relaxedAutoImplicit false

namespace LayerCanvas

/-- One call on a drawing context. -/
inductive ContextCall
  | setTransform (m : Affine)
  | save
  | restore
  | setFillStyle (color : String)
  | setStrokeStyle (color : String)
  | createLinearGradient (start stop : Point Float)
  | addColorStop (position : Float) (color : String)
  /-- Strokes with the gradient that was created last. -/
  | setStrokeGradient
  | setGlobalAlpha (alpha : Float)
  | setLineWidth (width : Float)
  | setLineDash (dashes : List Float)
  | setShadowColor (color : String)
  | setShadowBlur (blur : Float)
  | setShadowOffsetY (offset : Float)
  | setFont (font : String)
  | setTextAlign (align : String)
  | setTextBaseline (baseline : String)
  | beginPath
  | closePath
  | moveTo (p : Point Float)
  | lineTo (p : Point Float)
  | quadraticCurveTo (control p : Point Float)
  | arc (center : Point Float) (radius start stop : Float)
  | arcTo (corner p : Point Float) (radius : Float)
  | fill
  | stroke
  | fillRect (corner : Point Float) (width height : Float)
  | fillText (text : String) (p : Point Float)
  deriving DecidableEq

/-- The colours of a drawing. -/
structure Theme where
  background : String := "#F9FAFB"
  grid : String := "#D1D5DB"
  nodeFill : String := "#FFFFFF"
  nodeBorder : String := "#E5E7EB"
  nodeSelected : String := "#3B82F6"
  nodeLabel : String := "#111827"
  nodeShape : String := "#6B7280"
  nodeShadow : String := "rgba(0, 0, 0, 0.08)"
  inputDot : String := "#3B82F6"
  outputDot : String := "#22C55E"
  line : String := "#6B7280"
  lineHovered : String := "#EF4444"
  lineDeleting : String := "#DFD1D1"
  flow : String := "#3B82F6"
  flowEnd : String := "rgba(59, 130, 246, 0)"
  indicatorFill : String := "rgba(255, 255, 255, 0.9)"
  indicatorText : String := "#374151"
  deriving DecidableEq

/-- The calls of a drawing, in their order. -/
abbrev Drawing := List ContextCall

namespace Drawing

/-- The distance of the points of the grid, on the canvas. -/
def gridSpacing : Float := 20

/-- The radius of the corners of a node. -/
def cornerRadius : Float := 8

/-- The radius of a drawn dot. -/
def dotRadius : Float := 6

/-- A full turn. -/
def turn : Float := 6.283185307179586

/-- The call for one part of an outline. -/
def ofElement : PathElement → ContextCall
  | .moveTo p => .moveTo p
  | .lineTo p => .lineTo p
  | .quadTo control p => .quadraticCurveTo control p
  | .close => .closePath

/-- Makes an outline the current path. -/
def trace (p : Path) : Drawing := .beginPath :: p.map ofElement

/-- Makes a rectangle with rounded corners the current path. The radius is at most half of either
side. -/
def roundedRect (x y width height radius : Float) : Drawing :=
  let r := Scalar.smaller (Scalar.smaller radius (width / 2)) (height / 2)
  [.beginPath,
    .moveTo ⟨x + r, y⟩,
    .lineTo ⟨x + width - r, y⟩,
    .arcTo ⟨x + width, y⟩ ⟨x + width, y + r⟩ r,
    .lineTo ⟨x + width, y + height - r⟩,
    .arcTo ⟨x + width, y + height⟩ ⟨x + width - r, y + height⟩ r,
    .lineTo ⟨x + r, y + height⟩,
    .arcTo ⟨x, y + height⟩ ⟨x, y + height - r⟩ r,
    .lineTo ⟨x, y + r⟩,
    .arcTo ⟨x, y⟩ ⟨x + r, y⟩ r,
    .closePath]

/-- Makes a circle the current path. -/
def circle (c : Circle) : Drawing := [.beginPath, .arc c.center c.radius 0 turn]

/-- Where the lines of the grid cross one side: from `x` on in steps of `spacing`, below `limit`. -/
def gridStops (spacing limit : Float) : (count : Nat) → (x : Float) → List Float
  | 0, _ => []
  | count + 1, x => if x < limit then x :: gridStops spacing limit count (x + spacing) else []

/-- The first stop of the grid along one side. -/
def gridStart (offset : Float32) (spacing : Float) : Float :=
  Binary.modulo (Precision.widen offset) spacing

/-- The stops of the grid along one side. They are at least four apart, so there are fewer of them
than half the length of the side. -/
def gridSide (start spacing length : Float) : List Float :=
  gridStops spacing length ((length / 2).toUInt64.toNat + 1) start

/-- The points of the grid, column by column. There are none unless both sides reach their first
stop, however long the other side may be. -/
def gridPoints (start : Point Float) (spacing width height : Float) : List (Point Float) :=
  if start.x < width && start.y < height then
    let rows := gridSide start.y spacing height
    (gridSide start.x spacing width).flatMap fun x ↦ rows.map fun y ↦ ⟨x, y⟩
  else []

/-- The grid, unless its points would be too close together. -/
def ofGrid (theme : Theme) (t : Transform) (width height : Float) : Drawing :=
  let spacing := gridSpacing * Precision.widen t.scale
  if spacing < 4 then []
  else
    let start := ⟨gridStart t.offset.x spacing, gridStart t.offset.y spacing⟩
    .setFillStyle theme.grid ::
      (gridPoints start spacing width height).map fun p ↦ .fillRect p 1 1

/-- The zoom level, in the lower right corner. -/
def ofZoomLevel (theme : Theme) (percent : Nat) (width height : Float) : Drawing :=
  let x := width - 56 - 12
  let y := height - 24 - 12
  [.save, .setFillStyle theme.indicatorFill] ++ roundedRect x y 56 24 6 ++
    [.fill, .setFont "12px Inter, system-ui, sans-serif", .setFillStyle theme.indicatorText,
      .setTextAlign "center", .setTextBaseline "middle",
      .fillText (toString percent ++ "%") ⟨x + 56 / 2, y + 24 / 2⟩, .restore]

/-- The dot of a node. -/
def ofDot (theme : Theme) (n : Node) (kind : DotKind) : Drawing :=
  let color := match kind with
    | .input => theme.inputDot
    | .output => theme.outputDot
  circle ⟨(n.anchor kind).widen, dotRadius⟩ ++
    [.setFillStyle color, .fill, .setStrokeStyle theme.nodeFill, .setLineWidth 2, .stroke]

/-- A node: its card with a shadow, the border of the card, its texts and its two dots. -/
def ofNode (theme : Theme) (n : Node) (selected : Bool) : Drawing :=
  let corner : Point Float := n.origin.widen
  let width : Float := Precision.widen n.width
  let height : Float := Precision.widen n.height
  let card := roundedRect corner.x corner.y width height cornerRadius
  let x := corner.x + width / 2
  let y := corner.y + height / 2
  let shape :=
    if n.layer.outputShape.isEmpty then []
    else
      [.setFont "10px ui-monospace, monospace", .setFillStyle theme.nodeShape,
        .fillText n.layer.outputShape ⟨x, y + 12⟩]
  [.save, .setShadowColor theme.nodeShadow, .setShadowBlur 6, .setShadowOffsetY 2] ++ card ++
    [.setFillStyle theme.nodeFill, .fill, .restore,
      .setStrokeStyle (if selected then theme.nodeSelected else theme.nodeBorder),
      .setLineWidth (if selected then 2 else 1)] ++ card ++
    [.stroke, .setTextAlign "center", .setTextBaseline "middle",
      .setFont "600 13px Inter, system-ui, sans-serif", .setFillStyle theme.nodeLabel,
      .fillText n.layer.label ⟨x, y - 8⟩] ++ shape ++
    ofDot theme n .input ++ ofDot theme n .output

/-- A delete target: a disc, its border and a cross. -/
def ofTarget (fill line : String) (target : Circle) : Drawing :=
  circle target ++
    [.setFillStyle fill, .fill, .setStrokeStyle line, .setLineWidth 2, .stroke,
      .setFont "bold 12px Inter, system-ui, sans-serif", .setFillStyle line,
      .setTextAlign "center", .setTextBaseline "middle", .fillText "×" target.center]

/-- The flow along a connection at rest. -/
def ofFlow (theme : Theme) (curve : Curve) : Drawing :=
  [.createLinearGradient curve.start curve.stop, .addColorStop 0 theme.flowEnd,
    .addColorStop 0.5 theme.flow, .addColorStop 1 theme.flowEnd, .setStrokeGradient,
    .setGlobalAlpha 0.6] ++ trace curve.path ++ [.stroke, .setGlobalAlpha 1]

/-- A connection: its curve, the flow along it once it is at rest, its arrowhead, and its delete
target while the pointer is over it or it fades. -/
def ofConnection (theme : Theme) (c : Connection) (hovered : Bool) : Drawing :=
  let curve := Curve.ofConnection c
  let color :=
    if c.isDeleting then theme.lineDeleting
    else if hovered then theme.lineHovered
    else theme.line
  let dash := if c.isAnimating then [.setLineDash [5, 5]] else []
  let flow := if !c.isDeleting && decide (1 ≤ curve.progress) then ofFlow theme curve else []
  let arrowhead :=
    if curve.showsArrowhead then .setFillStyle color :: trace curve.arrowhead ++ [.fill] else []
  let radius := if hovered then Curve.targetRadius + Curve.targetGrowth else Curve.targetRadius
  let target :=
    if hovered || c.isDeleting then
      let fill := if c.isDeleting then theme.lineDeleting else theme.nodeFill
      ((curve.deleteTarget? radius).map (ofTarget fill color)).getD []
    else []
  [.save, .setStrokeStyle color, .setLineWidth (if hovered then 3 else 2)] ++ dash ++
    trace curve.path ++ [.stroke, .setLineDash []] ++ flow ++ arrowhead ++ target ++ [.restore]

/-- The line that is being drawn. -/
def ofLine (theme : Theme) (start stop : Point) : Drawing :=
  [.setStrokeStyle theme.nodeSelected, .setLineWidth 2, .setLineDash [8, 4]] ++
    trace (Curve.between start stop).path ++ [.stroke, .setLineDash []]

/-- The whole canvas, in a view of the given size. -/
def ofGraph (g : Graph) (t : Transform) (overlay : Overlay) (width height : Float)
    (showsGrid : Bool) (theme : Theme := {}) : Drawing :=
  let grid := if showsGrid then ofGrid theme t width height else []
  let line := match overlay.line with
    | none => []
    | some (start, stop) => ofLine theme start stop
  let percent := t.zoomPercent
  [.setTransform (.scale 1), .setFillStyle theme.background, .fillRect ⟨0, 0⟩ width height] ++
    grid ++ [.save, .setTransform t.matrix] ++
    (g.connections.flatMap fun c ↦ ofConnection theme c (overlay.hovered = some c.id)) ++
    (g.nodes.flatMap fun n ↦ ofNode theme n (overlay.selected = some n.id)) ++ line ++
    [.restore] ++ if percent = 100 then [] else ofZoomLevel theme percent width height

end Drawing

end LayerCanvas
