import LayerCanvas.Graph.Load
import LayerCanvas.Proofs.Graph.Edit
import LayerCanvas.Proofs.InPlace.Basic

/-!
The edits of a graph as routines that work in place, with every check and every change where it is
made. Each of them comes to what the edit says, and each that can be refused is atomic. Two of them
meet refusals half way: deleting a node passes over the connections that cannot be made to fade, and
loading a document builds a graph of its own, of which some is there when a fault turns up, and puts
it in place last of all.
-/

set_option autoImplicit false
set_option relaxedAutoImplicit false

namespace LayerCanvas

/-- Why a request is refused: without a word, or for a fault of a parameter or a document. -/
inductive Refusal
  | silent
  | param (fault : ParamError)
  | document (fault : GraphError)
  deriving DecidableEq

/-- What is refused without a word. -/
def silently {α : Type} (result : Option α) : Except Refusal α :=
  result.elim (.error .silent) .ok

namespace Graph

open InPlace

variable {C R : Type}

/-! ### Nodes and parameters -/

def addNodeInPlace (layer : Layer R) (origin : Point C) : InPlace (Graph C R) Refusal NodeId := do
  let g ← get
  let name := NodeId.mint layer.type (g.nodes.map Node.id) g.serial
  modify fun g ↦ { g with serial := name.2 }
  let node :=
    { id := name.1, layer, origin, width := g.config.nodeWidth, height := g.config.nodeHeight }
  modify fun g ↦ { g with nodes := g.nodes ++ [node] }
  return name.1

theorem completes_addNodeInPlace (layer : Layer R) (origin : Point C) :
    (addNodeInPlace layer origin).Completes :=
  completes_get.bind fun _ ↦ (completes_modify _).bind fun _ ↦ (completes_modify _).bind fun _ ↦
    completes_pure _

theorem result_addNodeInPlace (layer : Layer R) (origin : Point C) (g : Graph C R) :
    (addNodeInPlace layer origin).result g =
      .ok ((g.addNode layer origin).2, (g.addNode layer origin).1) := by
  simp only [addNodeInPlace, addNode, result_get_bind, result_modify_bind, result_pure]

def setParamInPlace (id : NodeId) (name : String) (value : ParamValue R) :
    InPlace (Graph C R) Refusal Unit := do
  let g ← get
  let n ← demand (g.node? id) (.param (.unknownNode id))
  let old ← demand (n.layer.params.find? name) (.param (.unknownParam id name))
  refuseIf (old.kind ≠ value.kind) (.param (.kindMismatch name old.kind value.kind))
  modify fun g ↦ g.updateNode id fun n ↦
    { n with layer := { n.layer with params := n.layer.params.insert name value } }

theorem atomic_setParamInPlace (id : NodeId) (name : String) (value : ParamValue R) :
    Atomic (setParamInPlace id name value : InPlace (Graph C R) Refusal Unit) :=
  looks_get.bind_atomic fun _ ↦ (looks_demand _ _).bind_atomic fun _ ↦
    (looks_demand _ _).bind_atomic fun _ ↦ (looks_refuseIf _ _).bind_atomic fun _ ↦
      (completes_modify _).atomic

theorem result_setParamInPlace (id : NodeId) (name : String) (value : ParamValue R)
    (g : Graph C R) :
    (setParamInPlace id name value).result g =
      ((g.setParam id name value).mapError Refusal.param).map fun g' ↦ ((), g') := by
  unfold setParam
  cases hnode : g.node? id with
  | none => simp [setParamInPlace, hnode, Except.mapError, Except.map]
  | some n =>
    cases hold : n.layer.params.find? name with
    | none => simp [setParamInPlace, hnode, hold, Except.mapError, Except.map]
    | some old =>
      by_cases hkind : old.kind = value.kind <;>
        simp [setParamInPlace, hnode, hold, hkind, Except.mapError, Except.map]

/-! ### Connections -/

def addConnectionInPlace [Scalar C] (source target : NodeId) (start stop : Point C) :
    InPlace (Graph C R) Refusal ConnectionId := do
  refuseIf (source = target) .silent
  let g ← get
  refuseIf (!g.contains source || !g.contains target) .silent
  refuseIf (g.isLeaving source || g.isLeaving target) .silent
  refuseIf (g.liveConnections.any fun c ↦ c.source == source && c.target == target) .silent
  let name := ConnectionId.mint (g.connections.map Connection.id) g.serial
  modify fun g ↦ { g with serial := name.2 }
  modify fun g ↦ { g with connections := g.connections ++ [.new name.1 source target start stop] }
  modify fun g ↦ { g with animator := g.animator.start name.1 .creation }
  return name.1

theorem atomic_addConnectionInPlace [Scalar C] (source target : NodeId) (start stop : Point C) :
    Atomic (addConnectionInPlace source target start stop :
      InPlace (Graph C R) Refusal ConnectionId) := by
  -- All four checks come first, and nothing is drawn, added or started before the last of them.
  refine (looks_refuseIf _ _).bind_atomic fun _ ↦ looks_get.bind_atomic fun g ↦ ?_
  refine (looks_refuseIf _ _).bind_atomic fun _ ↦ (looks_refuseIf _ _).bind_atomic fun _ ↦ ?_
  refine (looks_refuseIf _ _).bind_atomic fun _ ↦ Completes.atomic ?_
  exact (completes_modify _).bind fun _ ↦ (completes_modify _).bind fun _ ↦
    (completes_modify _).bind fun _ ↦ completes_pure _

theorem result_addConnectionInPlace [Scalar C] (source target : NodeId) (start stop : Point C)
    (g : Graph C R) :
    (addConnectionInPlace source target start stop).result g =
      (silently (g.addConnection? source target start stop)).map fun made ↦ (made.2, made.1) := by
  unfold addConnection? addConnectionInPlace
  simp only [result_refuseIf_bind, result_get_bind, result_modify_bind, result_pure]
  generalize (g.liveConnections.any fun c ↦ c.source == source && c.target == target) = twice
  by_cases hself : source = target
  · simp [hself, silently, Except.map]
  · cases g.contains source <;> cases g.contains target <;> cases g.isLeaving source <;>
      cases g.isLeaving target <;> cases twice <;> simp [hself, silently, Except.map]

def deleteConnectionInPlace (id : ConnectionId) : InPlace (Graph C R) Refusal Unit := do
  let g ← get
  let c ← demand (g.connection? id) .silent
  refuseIf c.isDeleting .silent
  modify fun g ↦ g.updateConnection id fun c ↦ { c with isDeleting := true, isAnimating := false }
  modify fun g ↦ { g with animator := g.animator.start id .deletion }

theorem atomic_deleteConnectionInPlace (id : ConnectionId) :
    Atomic (deleteConnectionInPlace id : InPlace (Graph C R) Refusal Unit) :=
  looks_get.bind_atomic fun _ ↦ (looks_demand _ _).bind_atomic fun _ ↦
    (looks_refuseIf _ _).bind_atomic fun _ ↦
      ((completes_modify _).bind fun _ ↦ completes_modify _).atomic

theorem result_deleteConnectionInPlace (id : ConnectionId) (g : Graph C R) :
    (deleteConnectionInPlace id).result g =
      (silently (g.deleteConnection? id)).map fun g' ↦ ((), g') := by
  unfold deleteConnection?
  cases hfound : g.connection? id with
  | none => simp [deleteConnectionInPlace, hfound, silently, Except.map]
  | some c =>
    cases hdeleting : c.isDeleting <;>
      simp [deleteConnectionInPlace, hfound, hdeleting, silently, Except.map, updateConnection]

/-- The refusal of a connection that fades already is passed over. -/
theorem result_ignore_deleteConnectionInPlace (id : ConnectionId) (g : Graph C R) :
    (ignore (deleteConnectionInPlace id)).result g = .ok ((), g.deleteConnection id) := by
  rw [(atomic_deleteConnectionInPlace id).result_ignore, result_deleteConnectionInPlace,
    deleteConnection]
  cases g.deleteConnection? id <;> rfl

/-! ### Deleting nodes -/

def dropNodeInPlace (id : NodeId) : InPlace (Graph C R) Refusal Unit := do
  let g ← get
  (g.connections.filter fun c ↦ c.touches id).forM fun c ↦ modify fun g ↦ g.dropConnection c.id
  modify fun g ↦ { g with nodes := g.nodes.filter fun n ↦ n.id != id }
  modify fun g ↦ { g with leaving := g.leaving.filter fun n ↦ n != id }

theorem completes_dropNodeInPlace (id : NodeId) :
    Completes (dropNodeInPlace id : InPlace (Graph C R) Refusal Unit) :=
  completes_get.bind fun _ ↦ (completes_forM _ fun _ ↦ completes_modify _).bind fun _ ↦
    (completes_modify _).bind fun _ ↦ completes_modify _

theorem result_dropNodeInPlace (id : NodeId) (g : Graph C R) :
    (dropNodeInPlace id).result g = .ok ((), g.dropNode id) := by
  have hloop (attached : List (Connection C)) (g : Graph C R) :
      (attached.forM fun c ↦ modify fun g ↦ g.dropConnection c.id :
        InPlace (Graph C R) Refusal Unit).result g =
      .ok ((), attached.foldl (fun g c ↦ g.dropConnection c.id) g) :=
    result_forM_ok (fun _ _ ↦ rfl) attached g
  rw [dropNodeInPlace, result_get_bind, result_bind, hloop]
  simp [Except.bind, dropNode]

def deleteNodeInPlace (id : NodeId) : InPlace (Graph C R) Refusal Unit := do
  let g ← get
  refuseIf (!g.contains id) .silent
  refuseIf (g.isLeaving id) .silent
  let live := g.touching id .both
  live.forM fun c ↦ ignore (deleteConnectionInPlace c.id)
  let faded ← get
  if live.isEmpty && !faded.isTouched id then dropNodeInPlace id
  else modify fun g ↦ { g with leaving := g.leaving ++ [id] }

theorem atomic_deleteNodeInPlace (id : NodeId) :
    Atomic (deleteNodeInPlace id : InPlace (Graph C R) Refusal Unit) := by
  -- From the first connection on nothing is refused any more: what a connection refuses is ignored.
  refine looks_get.bind_atomic fun g ↦ (looks_refuseIf _ _).bind_atomic fun _ ↦
    (looks_refuseIf _ _).bind_atomic fun _ ↦ Completes.atomic ?_
  refine (completes_forM _ fun _ ↦ completes_ignore _).bind fun _ ↦ completes_get.bind fun _ ↦ ?_
  split_ifs
  · exact completes_dropNodeInPlace id
  · exact completes_modify _

theorem result_deleteNodeInPlace (id : NodeId) (g : Graph C R) :
    (deleteNodeInPlace id).result g = (silently (g.deleteNode? id)).map fun g' ↦ ((), g') := by
  have hloop (live : List (Connection C)) :
      (live.forM fun c ↦ ignore (deleteConnectionInPlace c.id) :
        InPlace (Graph C R) Refusal Unit).result g =
      .ok ((), live.foldl (fun g c ↦ g.deleteConnection c.id) g) := by
    refine result_forM_ok (fun c g ↦ ?_) live g
    exact result_ignore_deleteConnectionInPlace c.id g
  have hlinks :
      ((g.touching id .both).foldl (fun g c ↦ g.deleteConnection c.id) g).links = g.links := by
    have h := g.links_fadeAll ((g.touching id .both).map Connection.id)
    rwa [fadeAll, List.foldl_map] at h
  unfold deleteNode? deleteNodeInPlace
  simp only [result_get_bind, result_refuseIf_bind]
  rw [result_bind, hloop]
  simp only [Except.bind, result_get_bind, isTouched_congr hlinks]
  cases hthere : g.contains id
  · simp [silently, Except.map]
  · cases hleaving : g.isLeaving id
    · cases htouched : g.isTouched id
      · have hnone := touching_both_of_untouched htouched
        simp [hnone, result_dropNodeInPlace, silently, Except.map]
      · simp [silently, Except.map]
    · simp [silently, Except.map]

/-! ### Documents -/

section Documents

variable [Scalar C]

def insertNodeInPlace (n : Node C R) : InPlace (Graph C R) Refusal Unit := do
  let g ← get
  refuseIf (g.contains n.id) (.document (.duplicateNode n.id))
  refuseIf (!n.hasValidGeometry) (.document (.invalidGeometry n.id))
  modify fun g ↦ { g with nodes := g.nodes ++ [n] }

theorem result_insertNodeInPlace (n : Node C R) (g : Graph C R) :
    (insertNodeInPlace n).result g =
      ((g.insertNode n).mapError Refusal.document).map fun g' ↦ ((), g') := by
  unfold insertNode
  cases hthere : g.contains n.id <;> cases hvalid : n.hasValidGeometry <;>
    simp [insertNodeInPlace, hthere, hvalid, Except.mapError, Except.map]

def insertConnectionInPlace (c : Connection C) : InPlace (Graph C R) Refusal Unit := do
  let g ← get
  refuseIf (g.containsConnection c.id) (.document (.duplicateConnectionId c.id))
  refuseIf (c.source = c.target) (.document (.selfLoop c.id))
  let source ← demand (g.node? c.source) (.document (.danglingConnection c.id c.source))
  let target ← demand (g.node? c.target) (.document (.danglingConnection c.id c.target))
  refuseIf (g.connections.any fun d ↦ d.source == c.source && d.target == c.target)
    (.document (.duplicateConnection c.source c.target))
  modify fun g ↦ { g with connections := g.connections ++ [(c.anchored source target).settled] }

theorem result_insertConnectionInPlace (c : Connection C) (g : Graph C R) :
    (insertConnectionInPlace c).result g =
      ((g.insertConnection c).mapError Refusal.document).map fun g' ↦ ((), g') := by
  unfold insertConnection insertConnectionInPlace
  simp only [result_get_bind, result_refuseIf_bind, result_demand_bind, result_modify]
  cases g.containsConnection c.id
  · by_cases hself : c.source = c.target
    · simp [hself, Except.mapError, Except.map]
    · cases g.node? c.source with
      | none => simp [hself, Except.mapError, Except.map]
      | some source =>
        cases g.node? c.target with
        | none => simp [hself, Except.mapError, Except.map]
        | some target =>
          cases g.connections.any fun d ↦ d.source == c.source && d.target == c.target <;>
            simp [hself, Except.mapError, Except.map]
  · simp [Except.mapError, Except.map]

/-- Puts the nodes and the connections of a document into the graph, up to the first fault. -/
def buildInPlace (s : Snapshot C R) : InPlace (Graph C R) Refusal Unit := do
  s.nodes.forM insertNodeInPlace
  s.connections.forM insertConnectionInPlace

theorem result_buildInPlace (s : Snapshot C R) (g : Graph C R) :
    (buildInPlace s).result g =
      (((s.nodes.foldlM insertNode g).bind fun withNodes ↦
        s.connections.foldlM insertConnection withNodes).mapError Refusal.document).map
          fun g' ↦ ((), g') := by
  rw [buildInPlace, result_bind, result_forM result_insertNodeInPlace]
  cases s.nodes.foldlM insertNode g with
  | error fault => rfl
  | ok withNodes => exact result_forM result_insertConnectionInPlace s.connections withNodes

def loadInPlace (s : Snapshot C R) : InPlace (Graph C R) Refusal Unit := do
  let g ← get
  let fresh ← apart (buildInPlace s) (.empty g.config g.serial)
  modify fun _ ↦ fresh

theorem atomic_loadInPlace (s : Snapshot C R) : (loadInPlace s).Atomic :=
  looks_get.bind_atomic fun _ ↦ (looks_apart _ _).bind_atomic fun _ ↦ (completes_modify _).atomic

theorem result_loadInPlace (s : Snapshot C R) (g : Graph C R) :
    (loadInPlace s).result g =
      ((g.load s).mapError Refusal.document).map fun g' ↦ ((), g') := by
  have hload : g.load s = (s.nodes.foldlM insertNode (empty g.config g.serial)).bind fun withNodes ↦
    s.connections.foldlM insertConnection withNodes := rfl
  rw [loadInPlace, result_get_bind, result_bind, result_apart, result_buildInPlace, ← hload]
  cases g.load s <;> rfl

end Documents

def loadTextInPlace (text : String) : InPlace Graph Refusal Unit := do
  let s ← demand (Snapshot.parse? text) (.document .unreadable)
  loadInPlace s

theorem atomic_loadTextInPlace (text : String) : (loadTextInPlace text).Atomic :=
  (looks_demand _ _).bind_atomic fun s ↦ atomic_loadInPlace s

theorem result_loadTextInPlace (text : String) (g : Graph) :
    (loadTextInPlace text).result g =
      ((g.loadText text).mapError Refusal.document).map fun g' ↦ ((), g') := by
  rw [loadTextInPlace, result_demand_bind, loadText]
  cases Snapshot.parse? text with
  | none => rfl
  | some s => exact result_loadInPlace s g

end Graph

end LayerCanvas
