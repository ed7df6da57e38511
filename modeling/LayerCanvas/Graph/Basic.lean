import LayerCanvas.Animator
import LayerCanvas.Config.Basic
import LayerCanvas.Snapshot.Basic

/-!
The graph on the canvas. Nodes are listed in the order they are painted and connections in the order
they were made. Deleting happens in two steps: a deleted connection fades before it goes, and a
deleted node waits until the last connection at it has gone. Connections that fade no longer count,
nodes that wait still do.
-/

set_option autoImplicit false
set_option relaxedAutoImplicit false

namespace LayerCanvas

/-- The graph on the canvas, with its animations. -/
structure Graph (C : Type := Float32) (R : Type := Float) where
  config : EditorConfig C R
  /-- The last node is painted on top. -/
  nodes : List (Node C R) := []
  connections : List (Connection C) := []
  /-- The deleted nodes that wait for their connections, in the order they were deleted. -/
  leaving : List NodeId := []
  animator : Animator R
  /-- The serial number of the next name. -/
  serial : Nat := 1
  deriving DecidableEq

/-- Which connections of a node are meant. -/
inductive Direction
  | incoming
  | outgoing
  | both
  deriving DecidableEq

namespace Graph

variable {C R : Type}

/-- The graph without nodes. -/
def empty (config : EditorConfig C R) (serial : Nat := 1) : Graph C R :=
  { config, animator := { creationMs := config.creationMs, deletionMs := config.deletionMs }
    serial }

/-- The node with a name. -/
def node? (g : Graph C R) (id : NodeId) : Option (Node C R) := g.nodes.find? fun n ↦ n.id == id

/-- Whether there is a node with a name. -/
def contains (g : Graph C R) (id : NodeId) : Bool := g.nodes.any fun n ↦ n.id == id

/-- Whether a node was deleted and waits for its connections to fade. -/
def isLeaving (g : Graph C R) (id : NodeId) : Bool := g.leaving.contains id

/-- The connection with a name. -/
def connection? (g : Graph C R) (id : ConnectionId) : Option (Connection C) :=
  g.connections.find? fun c ↦ c.id == id

/-- Whether there is a connection with a name. -/
def containsConnection (g : Graph C R) (id : ConnectionId) : Bool :=
  g.connections.any fun c ↦ c.id == id

/-- The connections that count. -/
def liveConnections (g : Graph C R) : List (Connection C) := g.connections.filter Connection.isLive

/-- Whether any connection, live or fading, touches a node. -/
def isTouched (g : Graph C R) (id : NodeId) : Bool := g.connections.any fun c ↦ c.touches id

/-- The live connections that leave a node, the newest first. -/
def outgoing (g : Graph C R) (id : NodeId) : List (Connection C) :=
  (g.liveConnections.filter fun c ↦ c.source == id).reverse

/-- The live connections that enter a node, the newest first. -/
def incoming (g : Graph C R) (id : NodeId) : List (Connection C) :=
  (g.liveConnections.filter fun c ↦ c.target == id).reverse

/-- The live connections of a node, the newest first; of both directions, the outgoing ones first.
-/
def touching (g : Graph C R) (id : NodeId) : Direction → List (Connection C)
  | .outgoing => g.outgoing id
  | .incoming => g.incoming id
  | .both => g.outgoing id ++ g.incoming id

/-- The numbers of live connections of a node. -/
def degree (g : Graph C R) (id : NodeId) : Degree :=
  ⟨(g.incoming id).length, (g.outgoing id).length⟩

/-- The counts of the whole graph. -/
def stats (g : Graph C R) : Stats := ⟨g.nodes.length, g.liveConnections.length⟩

/-- Whether any animation is under way. -/
def isAnimating (g : Graph C R) : Bool := !g.animator.isIdle

/-- What is saved: every node, and the connections that count. -/
def save (g : Graph C R) : Snapshot C R := ⟨g.nodes, g.liveConnections⟩

end Graph

end LayerCanvas
