import LayerCanvas.Binary.Precision

/-!
Points of the plane, on the canvas or on the screen.
-/

set_option autoImplicit false
set_option relaxedAutoImplicit false

namespace LayerCanvas

/-- A point. Coordinates are single-precision numbers unless said otherwise. -/
structure Point (C : Type := Float32) where
  x : C
  y : C
  deriving DecidableEq

namespace Point

variable {C : Type} [Scalar C]

/-- Both coordinates are finite. -/
def isFinite (p : Point C) : Bool := Scalar.isFinite p.x && Scalar.isFinite p.y

/-- The squared distance of two points. -/
def squaredDistance (p q : Point C) : C :=
  let dx := p.x - q.x
  let dy := p.y - q.y
  dx * dx + dy * dy

/-- The same point in the finer number type. -/
def widen {R : Type} [Precision C R] (p : Point C) : Point R :=
  ⟨Precision.widen p.x, Precision.widen p.y⟩

end Point

end LayerCanvas
