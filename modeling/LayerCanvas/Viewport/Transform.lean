import LayerCanvas.Point

/-!
From the canvas to the screen and back. A transform scales and then shifts; the same map is also
given as an affine map with six coefficients, which is what the painters hand on.
-/

set_option autoImplicit false
set_option relaxedAutoImplicit false

namespace LayerCanvas

/-- The map `p ↦ p * scale + offset` from the canvas to the screen. -/
structure Transform (C : Type := Float32) where
  offset : Point C
  scale : C
  deriving DecidableEq

/-- The map `(x, y) ↦ (a * x + c * y + e, b * x + d * y + f)`. -/
structure Affine (R : Type := Float) where
  a : R
  b : R
  c : R
  d : R
  e : R
  f : R
  deriving DecidableEq

namespace Affine

variable {R : Type} [Scalar R]

/-- A shift. -/
def translate (x y : R) : Affine R := ⟨1, 0, 0, 1, x, y⟩

/-- A scaling about the origin. -/
def scale (s : R) : Affine R := ⟨s, 0, 0, s, 0, 0⟩

/-- The map that applies `n` first and `m` second. -/
def mul (m n : Affine R) : Affine R where
  a := m.a * n.a + m.c * n.b
  b := m.b * n.a + m.d * n.b
  c := m.a * n.c + m.c * n.d
  d := m.b * n.c + m.d * n.d
  e := m.a * n.e + m.c * n.f + m.e
  f := m.b * n.e + m.d * n.f + m.f

/-- The image of a point. -/
def apply (m : Affine R) (p : Point R) : Point R :=
  ⟨m.a * p.x + m.c * p.y + m.e, m.b * p.x + m.d * p.y + m.f⟩

/-- The coefficients in their order. -/
def coefficients (m : Affine R) : List R := [m.a, m.b, m.c, m.d, m.e, m.f]

end Affine

namespace Transform

variable {C R : Type} [Scalar C] [Scalar R] [Precision C R]

/-- The transform that changes nothing. -/
def identity : Transform C := ⟨⟨0, 0⟩, 1⟩

/-- Where a canvas point appears on the screen. -/
def toScreen (t : Transform C) (p : Point C) : Point C :=
  ⟨p.x * t.scale + t.offset.x, p.y * t.scale + t.offset.y⟩

/-- The canvas point that appears at a screen point. -/
def toCanvas (t : Transform C) (p : Point C) : Point C :=
  ⟨(p.x - t.offset.x) / t.scale, (p.y - t.offset.y) / t.scale⟩

/-- The transform as a product of a scaling and a shift. -/
def affine (t : Transform C) : Affine R :=
  (Affine.translate (Precision.widen t.offset.x) (Precision.widen t.offset.y)).mul
    (Affine.scale (Precision.widen t.scale))

/-- The transform as a matrix, written down directly. -/
def matrix (t : Transform C) : Affine R :=
  let scale := Precision.widen t.scale
  ⟨scale, 0, 0, scale, Precision.widen t.offset.x, Precision.widen t.offset.y⟩

end Transform

end LayerCanvas
