import LayerCanvas.Id
import LayerCanvas.Layer.Basic
import LayerCanvas.Point

/-!
A node: a layer placed on the canvas as a rectangle. Connections leave it at the middle of its
lower edge and enter it at the middle of its upper edge.
-/

set_option autoImplicit false
set_option relaxedAutoImplicit false

namespace LayerCanvas

/-- A layer placed on the canvas. The origin is the upper left corner. -/
structure Node (C : Type := Float32) (R : Type := Float) where
  id : NodeId
  layer : Layer R
  origin : Point C
  width : C
  height : C
  deriving DecidableEq

/-- Which end of a node a dot marks. -/
inductive DotKind
  | input
  | output
  deriving DecidableEq

/-- A dot of a node, where connections begin and end. -/
structure Dot (C : Type := Float32) where
  node : NodeId
  kind : DotKind
  position : Point C
  deriving DecidableEq

namespace Node

variable {C R : Type} [Scalar C]

/-- Where connections enter: the middle of the upper edge. -/
def inputAnchor (n : Node C R) : Point C := ⟨n.origin.x + n.width / 2, n.origin.y⟩

/-- Where connections leave: the middle of the lower edge. -/
def outputAnchor (n : Node C R) : Point C :=
  ⟨n.origin.x + n.width / 2, n.origin.y + n.height⟩

/-- The anchor of either kind. -/
def anchor (n : Node C R) : DotKind → Point C
  | .input => n.inputAnchor
  | .output => n.outputAnchor

/-- The dot of either kind. -/
def dot (n : Node C R) (kind : DotKind) : Dot C := ⟨n.id, kind, n.anchor kind⟩

/-- Whether a point lies in the rectangle, edges included. -/
def contains (n : Node C R) (p : Point C) : Bool :=
  n.origin.x ≤ p.x && p.x ≤ n.origin.x + n.width &&
    n.origin.y ≤ p.y && p.y ≤ n.origin.y + n.height

/-- A finite position and a finite size that is greater than zero. -/
def hasValidGeometry (n : Node C R) : Bool :=
  n.origin.isFinite && Scalar.isPositive n.width && Scalar.isPositive n.height

end Node

end LayerCanvas
