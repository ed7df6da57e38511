import LayerCanvas.Graph.Basic

/-!
Edits of the graph. An edit that is refused has no result, or an error that says why, so that
nothing can have changed. The graph gives names to what it makes; moving a node takes the ends of
its connections along.
-/

set_option autoImplicit false
set_option relaxedAutoImplicit false

namespace LayerCanvas

/-- Why a document was not loaded. -/
inductive GraphError
  | duplicateNode (id : NodeId)
  | invalidGeometry (id : NodeId)
  | duplicateConnectionId (id : ConnectionId)
  | danglingConnection (id : ConnectionId) (node : NodeId)
  | selfLoop (id : ConnectionId)
  | duplicateConnection (source target : NodeId)
  | unreadable
  deriving DecidableEq

/-- The text of an error. -/
def GraphError.message : GraphError → String
  | .duplicateNode id => "duplicate node id `" ++ id.text ++ "`"
  | .invalidGeometry id =>
    "node `" ++ id.text ++ "` has a non-finite position or non-positive size"
  | .duplicateConnectionId id => "duplicate connection id `" ++ id.text ++ "`"
  | .danglingConnection id node =>
    "connection `" ++ id.text ++ "` references unknown node `" ++ node.text ++ "`"
  | .selfLoop id => "connection `" ++ id.text ++ "` connects a node to itself"
  | .duplicateConnection source target =>
    "more than one connection from `" ++ source.text ++ "` to `" ++ target.text ++ "`"
  | .unreadable => "invalid snapshot JSON:"

/-- Why an edit of a parameter was refused. -/
inductive ParamError
  | unknownNode (id : NodeId)
  | unknownParam (node : NodeId) (name : String)
  | kindMismatch (name : String) (expected found : ParamKind)
  deriving DecidableEq

/-- The text of an error. -/
def ParamError.message : ParamError → String
  | .unknownNode id => "unknown node `" ++ id.text ++ "`"
  | .unknownParam node name => "node `" ++ node.text ++ "` has no parameter `" ++ name ++ "`"
  | .kindMismatch name expected found =>
    "parameter `" ++ name ++ "` expects a " ++ expected.name ++ " value, got " ++ found.name

namespace Graph

variable {C R : Type}

/-- Changes the node with a name. -/
def updateNode (g : Graph C R) (id : NodeId) (f : Node C R → Node C R) : Graph C R :=
  { g with nodes := g.nodes.map fun n ↦ if n.id = id then f n else n }

/-- Changes the connection with a name. -/
def updateConnection (g : Graph C R) (id : ConnectionId) (f : Connection C → Connection C) :
    Graph C R :=
  { g with connections := g.connections.map fun c ↦ if c.id = id then f c else c }

/-- Places a new node of a layer with its upper left corner at a point. -/
def addNode (g : Graph C R) (layer : Layer R) (origin : Point C) : Graph C R × NodeId :=
  let (id, serial) := NodeId.mint layer.type (g.nodes.map Node.id) g.serial
  let node := { id, layer, origin, width := g.config.nodeWidth, height := g.config.nodeHeight }
  ({ g with nodes := g.nodes ++ [node], serial }, id)

/-- Adds a node as it is, if its name is new and its geometry valid. -/
def insertNode [Scalar C] (g : Graph C R) (n : Node C R) : Except GraphError (Graph C R) :=
  if g.contains n.id then .error (.duplicateNode n.id)
  else if !n.hasValidGeometry then .error (.invalidGeometry n.id)
  else .ok { g with nodes := g.nodes ++ [n] }

/-- Raises a node above the others. -/
def bringToFront (g : Graph C R) (id : NodeId) : Graph C R :=
  { g with nodes := g.nodes.filter (fun n ↦ n.id != id) ++ g.nodes.filter fun n ↦ n.id == id }

/-- Moves a node and the ends of the connections at it. Unknown nodes and positions that are not
finite are refused. -/
def moveNode? [Scalar C] (g : Graph C R) (id : NodeId) (origin : Point C) : Option (Graph C R) :=
  if !origin.isFinite then none
  else
    (g.node? id).map fun n ↦
      let moved := { n with origin }
      let follow (c : Connection C) : Connection C :=
        { c with
          start := if c.source = id then moved.outputAnchor else c.start
          stop := if c.target = id then moved.inputAnchor else c.stop }
      { g.updateNode id fun n ↦ { n with origin } with connections := g.connections.map follow }

/-- Gives a parameter another value of the kind it has. -/
def setParam (g : Graph C R) (id : NodeId) (name : String) (value : ParamValue R) :
    Except ParamError (Graph C R) :=
  match g.node? id with
  | none => .error (.unknownNode id)
  | some n =>
    match n.layer.params.find? name with
    | none => .error (.unknownParam id name)
    | some old =>
      if old.kind ≠ value.kind then .error (.kindMismatch name old.kind value.kind)
      else
        .ok (g.updateNode id fun n ↦
          { n with layer := { n.layer with params := n.layer.params.insert name value } })

/-- Connects the output of one node to the input of another. Refused are a node with itself, unknown
nodes, nodes that are leaving, and a second live connection for the same pair. -/
def addConnection? [Scalar C] (g : Graph C R) (source target : NodeId) (start stop : Point C) :
    Option (Graph C R × ConnectionId) :=
  if source = target || !g.contains source || !g.contains target || g.isLeaving source ||
      g.isLeaving target ||
      g.liveConnections.any (fun c ↦ c.source == source && c.target == target) then none
  else
    let (id, serial) := ConnectionId.mint (g.connections.map Connection.id) g.serial
    some
      ({ g with
          connections := g.connections ++ [.new id source target start stop]
          animator := g.animator.start id .creation
          serial }, id)

/-- Lets a connection fade. Refused if it is unknown or already fading. -/
def deleteConnection? (g : Graph C R) (id : ConnectionId) : Option (Graph C R) :=
  match g.connection? id with
  | none => none
  | some c =>
    if c.isDeleting then none
    else
      some
        { g.updateConnection id fun c ↦ { c with isDeleting := true, isAnimating := false } with
          animator := g.animator.start id .deletion }

/-- Lets a connection fade, if it can. -/
def deleteConnection (g : Graph C R) (id : ConnectionId) : Graph C R :=
  (g.deleteConnection? id).getD g

/-- Takes out a connection at once. -/
def dropConnection (g : Graph C R) (id : ConnectionId) : Graph C R :=
  { g with
    connections := g.connections.filter fun c ↦ c.id != id
    animator := g.animator.cancel id }

/-- Takes out a node at once, and whatever is still attached to it. -/
def dropNode (g : Graph C R) (id : NodeId) : Graph C R :=
  let attached := g.connections.filter fun c ↦ c.touches id
  let g := attached.foldl (fun g c ↦ g.dropConnection c.id) g
  { g with
    nodes := g.nodes.filter fun n ↦ n.id != id
    leaving := g.leaving.filter fun n ↦ n != id }

/-- Deletes a node: its live connections begin to fade, and it goes when none is left at it, which
is at once if there is none. Refused if it is unknown or already leaving. -/
def deleteNode? (g : Graph C R) (id : NodeId) : Option (Graph C R) :=
  if !g.contains id || g.isLeaving id then none
  else
    let faded := (g.touching id .both).foldl (fun g c ↦ g.deleteConnection c.id) g
    some
      (if g.isTouched id then { faded with leaving := faded.leaving ++ [id] }
        else faded.dropNode id)

/-- Deletes a node, if it can. -/
def deleteNode (g : Graph C R) (id : NodeId) : Graph C R := (g.deleteNode? id).getD g

/-- Deletes every node, from the lowest up. -/
def clear (g : Graph C R) : Graph C R := (g.nodes.map Node.id).foldl deleteNode g

end Graph

end LayerCanvas
