import LayerCanvas.Graph.Edit
import LayerCanvas.Snapshot.Json

/-!
Loading a document in place of the graph. The nodes come first, then the connections, each checked
against what is already there; the first fault is reported and nothing is loaded. The saved ends of
a connection are only a copy and are computed again, and every loaded connection is at rest.
-/

set_option autoImplicit false
set_option relaxedAutoImplicit false

namespace LayerCanvas.Graph

variable {C R : Type} [Scalar C]

/-- Adds a saved connection, at rest and with its ends at the anchors. -/
def insertConnection (g : Graph C R) (c : Connection C) : Except GraphError (Graph C R) :=
  if g.containsConnection c.id then .error (.duplicateConnectionId c.id)
  else if c.source = c.target then .error (.selfLoop c.id)
  else
    match g.node? c.source, g.node? c.target with
    | none, _ => .error (.danglingConnection c.id c.source)
    | some _, none => .error (.danglingConnection c.id c.target)
    | some source, some target =>
      if g.connections.any fun d ↦ d.source == c.source && d.target == c.target then
        .error (.duplicateConnection c.source c.target)
      else .ok { g with connections := g.connections ++ [(c.anchored source target).settled] }

/-- The graph of a snapshot, which takes the place of this one. Names go on being drawn from the
same serials. -/
def load (g : Graph C R) (s : Snapshot C R) : Except GraphError (Graph C R) := do
  let withNodes ← s.nodes.foldlM insertNode (empty g.config g.serial)
  s.connections.foldlM insertConnection withNodes

/-- The graph of a text. -/
def loadText (g : Graph) (text : String) : Except GraphError Graph :=
  match Snapshot.parse? text with
  | none => .error .unreadable
  | some s => g.load s

end LayerCanvas.Graph
