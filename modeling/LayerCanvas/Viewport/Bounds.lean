import LayerCanvas.Layer.Node

/-!
The bounds of a set of nodes: the least upright rectangle that holds them all, grown by a padding.
Corners that are not numbers are passed over.
-/

set_option autoImplicit false
set_option relaxedAutoImplicit false

namespace LayerCanvas

/-- An upright rectangle, by two corners. -/
structure Bounds (C : Type := Float32) where
  min : Point C
  max : Point C
  deriving DecidableEq

namespace Bounds

variable {C R : Type} [Scalar C]

/-- The bounds of nothing. -/
def nothing : Bounds C :=
  ⟨⟨Scalar.infinity, Scalar.infinity⟩, ⟨-Scalar.infinity, -Scalar.infinity⟩⟩

/-- The bounds extended to hold a node. -/
def cover (b : Bounds C) (n : Node C R) : Bounds C where
  min := ⟨Scalar.smaller b.min.x n.origin.x, Scalar.smaller b.min.y n.origin.y⟩
  max :=
    ⟨Scalar.larger b.max.x (n.origin.x + n.width), Scalar.larger b.max.y (n.origin.y + n.height)⟩

/-- The bounds grown on each side. -/
def grow (b : Bounds C) (padding : C) : Bounds C where
  min := ⟨b.min.x - padding, b.min.y - padding⟩
  max := ⟨b.max.x + padding, b.max.y + padding⟩

/-- The extent from left to right. -/
def width (b : Bounds C) : C := b.max.x - b.min.x

/-- The extent from top to bottom. -/
def height (b : Bounds C) : C := b.max.y - b.min.y

/-- The middle. -/
def center (b : Bounds C) : Point C := ⟨(b.min.x + b.max.x) / 2, (b.min.y + b.max.y) / 2⟩

/-- The bounds of some nodes with a padding, if there are any nodes. -/
def ofNodes? (padding : C) (nodes : List (Node C R)) : Option (Bounds C) :=
  if nodes.isEmpty then none else some ((nodes.foldl cover nothing).grow padding)

end Bounds

end LayerCanvas
