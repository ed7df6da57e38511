import LayerCanvas.Layer.Node

/-!
A connection from the output of one node to the input of another. Its ends are copies of the two
anchors, kept in step by whoever moves a node. A connection that is being deleted stays on the
canvas until it has faded, but no longer counts.
-/

set_option autoImplicit false
set_option relaxedAutoImplicit false

namespace LayerCanvas

/-- A directed connection, with the state of its animation. -/
structure Connection (C : Type := Float32) where
  id : ConnectionId
  source : NodeId
  target : NodeId
  start : Point C
  stop : Point C
  isAnimating : Bool
  isDeleting : Bool
  progress : C
  deriving DecidableEq

namespace Connection

variable {C : Type}

/-- A connection that was just made and has not been drawn yet. -/
def new [Scalar C] (id : ConnectionId) (source target : NodeId) (start stop : Point C) :
    Connection C :=
  { id, source, target, start, stop, isAnimating := true, isDeleting := false, progress := 0 }

/-- Whether the connection still counts. -/
def isLive (c : Connection C) : Bool := !c.isDeleting

/-- Whether the connection begins or ends at a node. -/
def touches (c : Connection C) (id : NodeId) : Bool := c.source == id || c.target == id

/-- The connection at rest: neither appearing nor fading, and fully drawn. -/
def settled [Scalar C] (c : Connection C) : Connection C :=
  { c with isAnimating := false, isDeleting := false, progress := 1 }

/-- The connection with its ends at the anchors of its nodes. -/
def anchored {R : Type} [Scalar C] (c : Connection C) (source target : Node C R) : Connection C :=
  { c with start := source.outputAnchor, stop := target.inputAnchor }

end Connection

end LayerCanvas
