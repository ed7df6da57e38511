import LayerCanvas.Connection

/-!
The geometry of a connection, in double precision. A connection is one quadratic curve: its control
point lies halfway across and hangs down by half the vertical distance. While the connection
appears or fades, the curve ends short of its target, in proportion to the progress.
-/

set_option autoImplicit false
set_option relaxedAutoImplicit false

namespace LayerCanvas

/-- A circle. -/
structure Circle where
  center : Point Float
  radius : Float
  deriving DecidableEq

/-- Whether a point lies strictly inside the circle. -/
def Circle.contains (c : Circle) (p : Point Float) : Bool :=
  p.squaredDistance c.center < c.radius * c.radius

/-- One part of an outline. -/
inductive PathElement
  | moveTo (p : Point Float)
  | lineTo (p : Point Float)
  | quadTo (control p : Point Float)
  | close
  deriving DecidableEq

/-- An outline. -/
abbrev Path := List PathElement

/-- The geometry of a connection at its present progress. -/
structure Curve where
  start : Point Float
  control : Point Float
  /-- The end of the drawn part. -/
  stop : Point Float
  progress : Float32
  deriving DecidableEq

namespace Curve

/-- The radius of a drawn delete target. -/
def targetRadius : Float32 := 8

/-- How much a delete target grows while the pointer is over it. -/
def targetGrowth : Float32 := 2

/-- The length of an arrowhead and half its width. -/
def arrowLength : Float := 10

@[inherit_doc arrowLength]
def arrowHalfWidth : Float := 3.5

/-- The control point of the curve between two points. -/
def controlPoint (start stop : Point Float) : Point Float :=
  ⟨(start.x + stop.x) / 2, start.y + (stop.y - start.y).abs * 0.5⟩

/-- The whole curve between two points. -/
def between (start stop : Point) : Curve :=
  let start : Point Float := start.widen
  let stop : Point Float := stop.widen
  { start, control := controlPoint start stop, stop, progress := 1 }

/-- The point a given part of the way between two points. -/
def along (p q : Point Float) (t : Float) : Point Float :=
  ⟨p.x + t * (q.x - p.x), p.y + t * (q.y - p.y)⟩

/-- The curve of a connection. -/
def ofConnection (c : Connection) : Curve :=
  let progress := Scalar.clamp 0 1 c.progress
  let start : Point Float := c.start.widen
  let stop := along start c.stop.widen (Precision.widen progress)
  { start, control := controlPoint start stop, stop, progress }

/-- The point of the curve at a parameter between zero and one. -/
def point (c : Curve) (t : Float) : Point Float :=
  let s := 1 - t
  let mix (p q r : Float) : Float := p * (s * s) + (q * (s * 2) + r * t) * t
  ⟨mix c.start.x c.control.x c.stop.x, mix c.start.y c.control.y c.stop.y⟩

/-- The middle of the curve. -/
def midpoint (c : Curve) : Point Float := c.point 0.5

/-- The outline of the curve. -/
def path (c : Curve) : Path := [.moveTo c.start, .quadTo c.control c.stop]

/-- Whether the curve is drawn far enough to end in an arrowhead. -/
def showsArrowhead (c : Curve) : Bool := 0.8 < c.progress

/-- Whether the curve is drawn far enough to offer its delete target. -/
def showsDeleteTarget (c : Curve) : Bool := 0.5 < c.progress

/-- The unit vector along the curve at its end, and straight down for a curve without length. -/
def endDirection (c : Curve) : Point Float :=
  let dx := c.stop.x - c.control.x
  let dy := c.stop.y - c.control.y
  let length := (dx * dx + dy * dy).sqrt
  if 2.220446049250313e-16 < length then
    let inverse := 1 / length
    ⟨dx * inverse, dy * inverse⟩
  else ⟨0, 1⟩

/-- The arrowhead: a triangle with its tip at the end of the curve. -/
def arrowhead (c : Curve) : Path :=
  let d := c.endDirection
  let normal : Point Float := ⟨-d.y, d.x⟩
  let base : Point Float := ⟨c.stop.x - d.x * arrowLength, c.stop.y - d.y * arrowLength⟩
  [.moveTo c.stop,
    .lineTo ⟨base.x + normal.x * arrowHalfWidth, base.y + normal.y * arrowHalfWidth⟩,
    .lineTo ⟨base.x - normal.x * arrowHalfWidth, base.y - normal.y * arrowHalfWidth⟩,
    .close]

/-- The delete target, a circle around the middle of the curve. -/
def deleteTarget? (c : Curve) (radius : Float32) : Option Circle :=
  if c.showsDeleteTarget then some ⟨c.midpoint, Precision.widen radius⟩ else none

end Curve

end LayerCanvas
