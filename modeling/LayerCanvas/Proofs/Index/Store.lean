import LayerCanvas.Proofs.Graph.Run
import LayerCanvas.Proofs.Index.Arena

/-!
The graph as it is stored: the nodes and connections in an arena, an index from names to places for
each of the two, and the two orders. Every call keeps these up to date one by one. A place that an
index names and the arena does not hold reads as if the name were unknown.
-/

set_option autoImplicit false
set_option relaxedAutoImplicit false

namespace LayerCanvas

instance : Hashable NodeId := ⟨fun id ↦ hash id.text⟩

instance : Hashable ConnectionId := ⟨fun id ↦ hash id.text⟩

/-- The graph as it is stored. -/
structure Store (C : Type := Float32) (R : Type := Float) where
  arena : Arena (Node C R) (Connection C)
  nodeIndex : Std.HashMap NodeId Nat
  edgeIndex : Std.HashMap ConnectionId Nat
  /-- The names of the nodes in the order they are painted. -/
  nodeOrder : List NodeId
  /-- The names of the connections in the order they were made. -/
  edgeOrder : List ConnectionId
  leaving : List NodeId
  animator : Animator R
  config : EditorConfig C R
  serial : Nat

namespace Store

variable {C R : Type}

/-- The store without nodes, when some places have been given out before. -/
def empty (config : EditorConfig C R) (serial given : Nat) : Store C R :=
  { arena := .empty given, nodeIndex := ∅, edgeIndex := ∅, nodeOrder := [], edgeOrder := []
    leaving := []
    animator := { creationMs := config.creationMs, deletionMs := config.deletionMs }
    config, serial }

/-- The node with a name, and its place. -/
def node? (s : Store C R) (id : NodeId) : Option (Nat × Node C R) :=
  s.nodeIndex[id]?.bind s.arena.node?

/-- The edge of the connection with a name. -/
def edge? (s : Store C R) (id : ConnectionId) : Option (Edge (Connection C)) :=
  s.edgeIndex[id]?.bind s.arena.edge?

/-! ### Nodes -/

def pushNode (slots : Slots) (s : Store C R) (n : Node C R) : Store C R :=
  let (arena, place) := s.arena.addNode slots n
  { s with
    arena, nodeIndex := s.nodeIndex.insert n.id place, nodeOrder := s.nodeOrder ++ [n.id] }

def addNode (slots : Slots) (s : Store C R) (layer : Layer R) (origin : Point C) :
    Store C R × NodeId :=
  let (id, serial) := NodeId.mint layer.type s.nodeIndex.keys s.serial
  let node := { id, layer, origin, width := s.config.nodeWidth, height := s.config.nodeHeight }
  ({ s.pushNode slots node with serial }, id)

def insertNode [Scalar C] (slots : Slots) (s : Store C R) (n : Node C R) :
    Except GraphError (Store C R) :=
  if s.nodeIndex.contains n.id then .error (.duplicateNode n.id)
  else if !n.hasValidGeometry then .error (.invalidGeometry n.id)
  else .ok (s.pushNode slots n)

def bringToFront (s : Store C R) (id : NodeId) : Store C R :=
  if id ∈ s.nodeOrder then { s with nodeOrder := s.nodeOrder.erase id ++ [id] } else s

def moveNode? [Scalar C] (s : Store C R) (id : NodeId) (origin : Point C) : Option (Store C R) :=
  if !origin.isFinite then none
  else
    (s.node? id).map fun (place, n) ↦
      let moved := { n with origin }
      let leave (e : Edge (Connection C)) : Connection C :=
        if e.source = place then { e.weight with start := moved.outputAnchor } else e.weight
      let enter (e : Edge (Connection C)) : Connection C :=
        if e.target = place then { e.weight with stop := moved.inputAnchor } else e.weight
      let arena := s.arena.modifyNode place fun n ↦ { n with origin }
      { s with arena := (arena.mapEdges leave).mapEdges enter }

def setParam (s : Store C R) (id : NodeId) (name : String) (value : ParamValue R) :
    Except ParamError (Store C R) :=
  match s.node? id with
  | none => .error (.unknownNode id)
  | some (place, n) =>
    match n.layer.params.find? name with
    | none => .error (.unknownParam id name)
    | some old =>
      if old.kind ≠ value.kind then .error (.kindMismatch name old.kind value.kind)
      else
        .ok
          { s with
            arena := s.arena.modifyNode place fun n ↦
              { n with layer := { n.layer with params := n.layer.params.insert name value } } }

/-! ### Connections -/

def addConnection? [Scalar C] (slots : Slots) (s : Store C R) (source target : NodeId)
    (start stop : Point C) : Option (Store C R × ConnectionId) :=
  if source = target then none
  else
    match s.nodeIndex[source]?, s.nodeIndex[target]? with
    | some a, some b =>
      if s.leaving.contains source || s.leaving.contains target then none
      else if (s.arena.outgoing a).any (fun e ↦ e.target == b && e.weight.isLive) then none
      else
        let (id, serial) := ConnectionId.mint s.edgeIndex.keys s.serial
        let (arena, place) := s.arena.addEdge slots a b (.new id source target start stop)
        some
          ({ s with
              arena
              edgeIndex := s.edgeIndex.insert id place
              edgeOrder := s.edgeOrder ++ [id]
              animator := s.animator.start id .creation
              serial }, id)
    | _, _ => none

def deleteConnection? (s : Store C R) (id : ConnectionId) : Option (Store C R) :=
  match s.edge? id with
  | none => none
  | some e =>
    if e.weight.isDeleting then none
    else
      some
        { s with
          arena := s.arena.modifyEdge e.place fun c ↦
            { c with isDeleting := true, isAnimating := false }
          animator := s.animator.start id .deletion }

def deleteConnection (s : Store C R) (id : ConnectionId) : Store C R :=
  (s.deleteConnection? id).getD s

/-- Takes a connection out of everything but the arena. -/
def forget (s : Store C R) (id : ConnectionId) : Store C R :=
  { s with
    edgeIndex := s.edgeIndex.erase id
    edgeOrder := s.edgeOrder.filter fun other ↦ other != id
    animator := s.animator.cancel id }

/-- Takes out a connection at once. -/
def purge (s : Store C R) (id : ConnectionId) : Store C R :=
  match s.edgeIndex[id]? with
  | none => s.forget id
  | some place => { s with arena := s.arena.removeEdge place }.forget id

/-! ### Taking out nodes -/

/-- Takes out a node at once. The arena takes out the edges at it, so everything else forgets them.
-/
def removeNodeNow (s : Store C R) (id : NodeId) : Store C R :=
  match s.nodeIndex[id]? with
  | none => s
  | some place =>
    let attached := (s.arena.touching place).map fun e ↦ e.weight.id
    let s := attached.foldl forget { s with nodeIndex := s.nodeIndex.erase id }
    { s with
      arena := s.arena.removeNode place
      nodeOrder := s.nodeOrder.filter fun other ↦ other != id
      leaving := s.leaving.filter fun other ↦ other != id }

/-- The live connections at the node at a place. -/
def incident (s : Store C R) (place : Nat) : List ConnectionId :=
  ((s.arena.touching place).filter fun e ↦ e.weight.isLive).map fun e ↦ e.weight.id

def deleteNode? (s : Store C R) (id : NodeId) : Option (Store C R) :=
  match s.nodeIndex[id]? with
  | none => none
  | some place =>
    if s.leaving.contains id then none
    else
      let faded := (s.incident place).foldl deleteConnection s
      if (s.incident place).isEmpty && (faded.arena.touching place).isEmpty then
        some (faded.removeNodeNow id)
      else some { faded with leaving := faded.leaving ++ [id] }

def deleteNode (s : Store C R) (id : NodeId) : Store C R := (s.deleteNode? id).getD s

def clear (s : Store C R) : Store C R := s.nodeOrder.foldl deleteNode s

/-! ### Ticks -/

def absorb (s : Store C R) (sample : TweenSample C) : Store C R :=
  match s.edgeIndex[sample.id]? with
  | none => { s with animator := s.animator.cancel sample.id }
  | some place =>
    let drawn :=
      { s with arena := s.arena.modifyEdge place fun c ↦ { c with progress := sample.progress } }
    match sample.kind with
    | .creation =>
      { drawn with
        arena := drawn.arena.modifyEdge place fun c ↦ { c with isAnimating := !sample.finished } }
    | .deletion => if sample.finished then drawn.purge sample.id else drawn

def purges (s : Store C R) (sample : TweenSample C) : Bool :=
  sample.kind = .deletion && sample.finished && s.edgeIndex.contains sample.id

/-- The leaving nodes that no connection touches any more. -/
def ready (s : Store C R) : List NodeId :=
  s.leaving.filter fun id ↦ s.nodeIndex[id]?.all fun place ↦ (s.arena.touching place).isEmpty

variable [Scalar R]

def tickWith (s : Store C R) (samples : List (TweenSample C)) (now : R) :
    Store C R × TickOutcome :=
  let absorbed := samples.foldl absorb { s with animator := s.animator.advance now }
  let after := absorbed.ready.foldl removeNodeNow absorbed
  (after,
    { needsFrame := !after.animator.isIdle
      purged := (samples.filter s.purges).map TweenSample.id
      removed := absorbed.ready })

def tickIn [Precision C R] (s : Store C R) (now : R) (order : SampleOrder C) :
    Store C R × TickOutcome :=
  s.tickWith (order.arrange (s.animator.samples now)) now

/-! ### Loads -/

variable [Scalar C]

def insertConnection (slots : Slots) (s : Store C R) (c : Connection C) :
    Except GraphError (Store C R) :=
  if s.edgeIndex.contains c.id then .error (.duplicateConnectionId c.id)
  else if c.source = c.target then .error (.selfLoop c.id)
  else
    match s.node? c.source, s.node? c.target with
    | none, _ => .error (.danglingConnection c.id c.source)
    | some _, none => .error (.danglingConnection c.id c.target)
    | some (a, source), some (b, target) =>
      if s.arena.joins a b then .error (.duplicateConnection c.source c.target)
      else
        let (arena, place) := s.arena.addEdge slots a b (c.anchored source target).settled
        .ok
          { s with
            arena, edgeIndex := s.edgeIndex.insert c.id place, edgeOrder := s.edgeOrder ++ [c.id] }

def load (slots : Slots) (s : Store C R) (snapshot : Snapshot C R) :
    Except GraphError (Store C R) := do
  let withNodes ←
    snapshot.nodes.foldlM (insertNode slots) (empty s.config s.serial s.arena.given)
  snapshot.connections.foldlM (insertConnection slots) withNodes

def loadDocument (slots : Slots) (s : Store C R) :
    Option (Snapshot C R) → Except GraphError (Store C R)
  | none => .error .unreadable
  | some snapshot => s.load slots snapshot

/-! ### Runs -/

variable [Precision C R]

/-- The store after a call. -/
def apply (slots : Slots) (s : Store C R) : Call C R → Store C R
  | .addNode layer origin => (s.addNode slots layer origin).1
  | .insertNode n => (s.insertNode slots n).toOption.getD s
  | .bringToFront id => s.bringToFront id
  | .moveNode id origin => (s.moveNode? id origin).getD s
  | .deleteNode id => s.deleteNode id
  | .clear => s.clear
  | .setParam id name value => (s.setParam id name value).toOption.getD s
  | .addConnection source target start stop =>
    ((s.addConnection? slots source target start stop).map Prod.fst).getD s
  | .deleteConnection id => s.deleteConnection id
  | .tick now order => (s.tickIn now order).1
  | .load snapshot => (s.load slots snapshot).toOption.getD s
  | .loadDocument document => (s.loadDocument slots document).toOption.getD s
  | .drawNames count => { s with serial := s.serial + count }

/-- The store of a run. -/
def run (slots : Slots) (config : EditorConfig C R) (serial : Nat) (calls : List (Call C R)) :
    Store C R :=
  calls.foldl (apply slots) (empty config serial 0)

end Store

end LayerCanvas
