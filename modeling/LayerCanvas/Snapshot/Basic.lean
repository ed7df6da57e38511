import LayerCanvas.Connection

/-!
What is saved of a canvas: its nodes in the order they are painted and its connections in the order
they were made. Beside it stand the counts that the panels show.
-/

set_option autoImplicit false
set_option relaxedAutoImplicit false

namespace LayerCanvas

/-- The unit of saving and loading. -/
structure Snapshot (C : Type := Float32) (R : Type := Float) where
  nodes : List (Node C R)
  connections : List (Connection C)
  deriving DecidableEq

/-- How many layers and how many live connections there are. -/
structure Stats where
  layers : Nat
  connections : Nat
  deriving DecidableEq

/-- How many live connections enter and leave a node. -/
structure Degree where
  inputs : Nat
  outputs : Nat
  deriving DecidableEq

end LayerCanvas
