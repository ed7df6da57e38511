import LayerCanvas.Proofs.Index.Step

/-!
Edits of a store that holds a graph. Every edit is refused when the edit of the graph is, with the
same error, and otherwise gives the same name and leads to a store that holds the edited graph.
-/

set_option autoImplicit false
set_option relaxedAutoImplicit false

namespace LayerCanvas

variable {C R : Type}

/-- Two computations that fail with the same error, or lead to related results. -/
inductive Agree {ε α β : Type} (r : α → β → Prop) : Except ε α → Except ε β → Prop
  | error (e : ε) : Agree r (.error e) (.error e)
  | ok {a : α} {b : β} (h : r a b) : Agree r (.ok a) (.ok b)

namespace Store.Represents

variable {s : Store C R} {g : Graph C R}

/-! ### Edits of nodes -/

theorem addNode (h : Represents s g) (slots : Slots) (layer : Layer R) (origin : Point C) :
    Represents (s.addNode slots layer origin).1 (g.addNode layer origin).1 ∧
      (s.addNode slots layer origin).2 = (g.addNode layer origin).2 := by
  have hkeys := (h.nodeIndex.keys_perm s.arena.nodes_nodup).trans h.node_names
  have hmint : NodeId.mint layer.type s.nodeIndex.keys s.serial =
      NodeId.mint layer.type g.nodeIds g.serial := by
    rw [h.serial, NodeId.mint_perm hkeys]
  have hnew := NodeId.mint_notMem layer.type g.nodeIds g.serial
  unfold Store.addNode Graph.addNode
  rw [hmint, h.config]
  exact ⟨{ h.pushNode slots hnew with serial := rfl }, rfl⟩

theorem insertNode [Scalar C] (h : Represents s g) (slots : Slots) (n : Node C R) :
    Agree Represents (s.insertNode slots n) (g.insertNode n) := by
  unfold Store.insertNode Graph.insertNode
  rw [h.contains_nodeIndex]
  split_ifs with hmem hvalid
  · exact .error _
  · exact .error _
  · exact .ok (h.pushNode slots (mt Graph.contains_iff.mpr hmem))

theorem bringToFront (h : Represents s g) (id : NodeId) :
    Represents (s.bringToFront id) (g.bringToFront id) := by
  have hids : (g.bringToFront id).nodeIds =
      g.nodeIds.filter (fun other ↦ other != id) ++ g.nodeIds.filter fun other ↦ other == id := by
    simp only [Graph.nodeIds, Graph.bringToFront, List.map_append, List.filter_map]
    rfl
  have hperm : (g.bringToFront id).nodes.Perm g.nodes := by
    have hsplit := List.filter_append_perm (fun n : Node C R ↦ n.id != id) g.nodes
    simpa [Graph.bringToFront, bne, Bool.not_not] using hsplit
  have hnodes := h.nodes.trans hperm.symm
  rw [List.filter_beq] at hids
  unfold Store.bringToFront
  rw [h.nodeOrder]
  split_ifs with hmem
  · rw [List.count_eq_one_of_mem h.nodup_nodeIds hmem] at hids
    refine { h with nodes := hnodes, nodeOrder := ?_ }
    rw [hids, ← h.nodup_nodeIds.erase_eq_filter]
    rfl
  · rw [List.count_eq_zero_of_not_mem hmem, ← h.nodup_nodeIds.erase_eq_filter,
      List.erase_of_not_mem hmem] at hids
    refine { h with nodes := hnodes, nodeOrder := ?_ }
    rw [h.nodeOrder, hids, List.replicate_zero, List.append_nil]

theorem moveNode? [Scalar C] (h : Represents s g) (id : NodeId) (origin : Point C) :
    Option.Rel Represents (s.moveNode? id origin) (g.moveNode? id origin) := by
  unfold Store.moveNode? Graph.moveNode?
  split_ifs with hfinite
  · exact .none
  · rw [← h.map_node?]
    cases hnode : s.node? id with
    | none => exact .none
    | some entry =>
      obtain ⟨place, n⟩ := entry
      have hplace := h.place_of_node? hnode
      have hmoved := h.modifyNode hplace (f := fun n ↦ { n with origin }) fun _ ↦ rfl
      refine .some ((hmoved.mapEdges (fun e _ ↦ ?_) rfl).mapEdges (fun e _ ↦ ?_) ?_)
      · simp only
        split_ifs <;> rfl
      · simp only
        split_ifs <;> rfl
      · rw [← h.edges]
        simp only [Arena.mapEdges, Arena.modifyNode, Arena.mapNodes, List.map_map]
        refine List.map_congr_left fun e he ↦ ?_
        simp only [Function.comp_apply, h.source_eq_iff hplace he, h.target_eq_iff hplace he]
        split_ifs <;> rfl

theorem setParam (h : Represents s g) (id : NodeId) (name : String) (value : ParamValue R) :
    Agree Represents (s.setParam id name value) (g.setParam id name value) := by
  unfold Store.setParam Graph.setParam
  rw [← h.map_node?]
  cases hnode : s.node? id with
  | none => exact .error _
  | some entry =>
    obtain ⟨place, n⟩ := entry
    simp only [Option.map_some]
    cases hparam : n.layer.params.find? name with
    | none => exact .error _
    | some old =>
      simp only
      split_ifs with hkind
      · exact .error _
      · exact .ok (h.modifyNode (h.place_of_node? hnode) fun _ ↦ rfl)

/-! ### Edits of connections -/

theorem deleteConnection? (h : Represents s g) (id : ConnectionId) :
    Option.Rel Represents (s.deleteConnection? id) (g.deleteConnection? id) := by
  unfold Store.deleteConnection? Graph.deleteConnection?
  rw [← h.map_edge?]
  cases hedge : s.edge? id with
  | none => exact .none
  | some e =>
    simp only [Option.map_some]
    split_ifs with hdeleting
    · exact .none
    · have hfaded := h.modifyEdge (h.place_of_edge? hedge)
        (f := fun c ↦ { c with isDeleting := true, isAnimating := false }) fun _ ↦ rfl
      exact .some { hfaded with animator := by rw [h.animator] }

theorem of_rel {s' : Option (Store C R)} {g' : Option (Graph C R)} (h : Represents s g)
    (hrel : Option.Rel Represents s' g') : Represents (s'.getD s) (g'.getD g) := by
  cases hrel with
  | some hnext => exact hnext
  | none => exact h

theorem of_agree {ε : Type} {s' : Except ε (Store C R)} {g' : Except ε (Graph C R)}
    (h : Represents s g) (hagree : Agree Represents s' g') :
    Represents (s'.toOption.getD s) (g'.toOption.getD g) := by
  cases hagree with
  | ok hnext => exact hnext
  | error e => exact h

theorem deleteConnection (h : Represents s g) (id : ConnectionId) :
    Represents (s.deleteConnection id) (g.deleteConnection id) :=
  h.of_rel (h.deleteConnection? id)

theorem purge (h : Represents s g) {id : ConnectionId} {place : Nat}
    (hplace : s.edgeIndex[id]? = some place) :
    Represents (s.purge id) (g.dropConnection id) := by
  rw [Store.purge, hplace]
  refine h.forgetAll [id] fun e he ↦ ?_
  have hiff := h.edgeIndex.place_eq_iff s.arena.edges_nodup hplace he
  rw [Bool.eq_iff_iff]
  simpa using hiff.not

theorem addConnection? [Scalar C] (h : Represents s g) (slots : Slots) (source target : NodeId)
    (start stop : Point C) :
    Option.Rel (fun made made' ↦ Represents made.1 made'.1 ∧ made.2 = made'.2)
      (s.addConnection? slots source target start stop)
      (g.addConnection? source target start stop) := by
  have hkeys := h.edge_names ▸ h.edgeIndex.keys_perm s.arena.edges_nodup
  have hmint : ConnectionId.mint s.edgeIndex.keys s.serial =
      ConnectionId.mint g.connectionIds g.serial := by
    rw [h.serial, ConnectionId.mint_perm hkeys]
  have hnew := ConnectionId.mint_notMem g.connectionIds g.serial
  unfold Store.addConnection? Graph.addConnection?
  by_cases hne : source = target
  · simp only [hne]
    exact .none
  simp only [h.contains_eq, hne]
  cases ha : s.nodeIndex[source]? with
  | none => exact .none
  | some a =>
    cases hb : s.nodeIndex[target]? with
    | none => exact .none
    | some b =>
      simp only [h.any_outgoing ha hb, hmint, h.leaving, Graph.isLeaving, Option.isSome_some,
        Bool.not_true, decide_false, Bool.false_or]
      cases g.leaving.contains source || g.leaving.contains target with
      | true => exact .none
      | false =>
        cases g.liveConnections.any fun c ↦ c.source == source && c.target == target with
        | true => exact .none
        | false =>
          have hpushed := h.pushEdge slots
            (c := .new (ConnectionId.mint g.connectionIds g.serial).1 source target start stop)
            hnew ha hb
          have hstarted :
              s.animator.start (ConnectionId.mint g.connectionIds g.serial).1 .creation =
                g.animator.start (ConnectionId.mint g.connectionIds g.serial).1 .creation := by
            rw [h.animator]
          exact .some ⟨{ hpushed with leaving := rfl, animator := hstarted, serial := rfl }, rfl⟩

/-! ### Taking out nodes -/

theorem exists_place (h : Represents s g) {id : NodeId} (hid : id ∈ g.nodeIds) :
    ∃ place, s.nodeIndex[id]? = some place := by
  rwa [← Option.isSome_iff_exists, ← Std.HashMap.mem_iff_isSome_getElem?, h.mem_nodeIndex_iff]

/-- The names that everything else forgets are those of the edges that the arena takes out. -/
theorem mem_attached_iff (h : Represents s g) {place : Nat} {e : Edge (Connection C)}
    (he : e ∈ s.arena.edges) :
    e.weight.id ∈ (s.arena.touching place).map (fun e ↦ e.weight.id) ↔
      e.source = place ∨ e.target = place := by
  constructor
  · intro hmem
    obtain ⟨other, hother, hid⟩ := List.mem_map.mp hmem
    obtain ⟨hstored, hends⟩ := Arena.mem_touching.mp hother
    have hnames := h.edgeIndex.nodup_names s.arena.edges_nodup
    rwa [List.inj_on_of_nodup_map hnames he hstored hid.symm]
  · intro hends
    exact List.mem_map.mpr ⟨e, Arena.mem_touching.mpr ⟨he, hends⟩, rfl⟩

/-- Taking out the connections at a node by their names in the arena or by those in the graph comes
to the same. -/
theorem foldl_attached (h : Represents s g) {id : NodeId} {place : Nat}
    (hplace : s.nodeIndex[id]? = some place) :
    ((s.arena.touching place).map fun e ↦ e.weight.id).foldl Graph.dropConnection g =
      (g.connections.filter fun c ↦ c.touches id).foldl (fun g c ↦ g.dropConnection c.id) g := by
  have hmem (other : ConnectionId) :
      ((s.arena.touching place).map fun e ↦ e.weight.id).contains other =
        ((g.connections.filter fun c ↦ c.touches id).map Connection.id).contains other := by
    have hweights : ((s.arena.touching place).map fun e ↦ e.weight.id) =
        ((s.arena.touching place).map Edge.weight).map Connection.id := by
      rw [List.map_map]
      rfl
    rw [hweights, Arena.touching, List.map_append, h.map_outgoing hplace, h.map_incoming hplace,
      Bool.eq_iff_iff, List.contains_iff_mem, List.contains_iff_mem]
    simp only [List.mem_map, List.mem_append, List.mem_reverse, List.mem_filter,
      Connection.touches, Bool.or_eq_true, ← and_or_left]
  rw [Graph.foldl_dropConnection, ← List.foldl_map, Graph.foldl_dropConnection]
  simp only [hmem]

theorem removeNodeNow (h : Represents s g) {id : NodeId} (hid : id ∈ g.nodeIds) :
    Represents (s.removeNodeNow id) (g.dropNode id) := by
  obtain ⟨place, hplace⟩ := h.exists_place hid
  have hkept : ∀ e ∈ s.arena.edges, (e.source != place && e.target != place) =
      !((s.arena.touching place).map fun e ↦ e.weight.id).contains e.weight.id := fun e he ↦ by
    rw [Bool.eq_iff_iff, Bool.not_eq_true', ← Bool.not_eq_true, List.contains_iff_mem,
      h.mem_attached_iff he]
    simp
  have hforgotten := h.forgetAll _ hkept
  rw [foldl_forget, h.foldl_attached hplace] at hforgotten
  have hdropped := hforgotten.dropNode hplace fun e he ↦ by
    simpa using (List.mem_filter.mp he).2
  rw [Store.removeNodeNow, hplace]
  simp only [foldl_forget]
  exact hdropped

theorem foldl_deleteConnection_nodeIndex (s : Store C R) (ids : List ConnectionId) :
    (ids.foldl Store.deleteConnection s).nodeIndex = s.nodeIndex := by
  induction ids generalizing s with
  | nil => rfl
  | cons id rest ih =>
    rw [List.foldl_cons, ih]
    unfold Store.deleteConnection Store.deleteConnection?
    split
    · rfl
    · split_ifs <;> rfl

/-- A node has no live connection and, when those fade, no connection at all, just when nothing
touches it. -/
theorem unattached_eq (h : Represents s g) {id : NodeId} {place : Nat}
    (hplace : s.nodeIndex[id]? = some place) :
    ((s.incident place).isEmpty &&
        (((s.incident place).foldl Store.deleteConnection s).arena.touching place).isEmpty) =
      !g.isTouched id := by
  have hfaded : Represents ((s.incident place).foldl Store.deleteConnection s) (g.fadeAt id) := by
    rw [h.incident_eq hplace]
    exact List.foldl_rel h fun other _ _ _ hstep ↦ hstep.deleteConnection other
  have hplace' :
      ((s.incident place).foldl Store.deleteConnection s).nodeIndex[id]? = some place := by
    rw [foldl_deleteConnection_nodeIndex]
    exact hplace
  rw [hfaded.isEmpty_touching hplace', Graph.fadeAt, Graph.isTouched_congr (g.links_fadeAll _),
    h.incident_eq hplace]
  cases htouched : g.isTouched id with
  | true => simp
  | false => simp [Graph.touching_both_of_untouched htouched]

theorem deleteNode? (h : Represents s g) (id : NodeId) :
    Option.Rel Represents (s.deleteNode? id) (g.deleteNode? id) := by
  unfold Store.deleteNode? Graph.deleteNode?
  rw [h.contains_eq]
  cases hplace : s.nodeIndex[id]? with
  | none => exact .none
  | some place =>
    have hfaded : Represents ((s.incident place).foldl Store.deleteConnection s)
        ((g.touching id .both).foldl (fun g c ↦ g.deleteConnection c.id) g) := by
      rw [h.incident_eq hplace, List.foldl_map]
      exact List.foldl_rel h fun c _ _ _ hstep ↦ hstep.deleteConnection c.id
    simp only [Option.isSome_some, Bool.not_true, Bool.false_or, Graph.isLeaving, h.leaving,
      h.unattached_eq hplace]
    cases g.leaving.contains id with
    | true => exact .none
    | false =>
      cases g.isTouched id with
      | true =>
        have hleaving := congrArg (fun leaving ↦ leaving ++ [id]) hfaded.leaving
        exact .some { hfaded with leaving := hleaving }
      | false =>
        refine .some (hfaded.removeNodeNow ?_)
        rw [← hfaded.mem_nodeIndex_iff, foldl_deleteConnection_nodeIndex,
          Std.HashMap.mem_iff_isSome_getElem?, hplace]
        rfl

theorem deleteNode (h : Represents s g) (id : NodeId) :
    Represents (s.deleteNode id) (g.deleteNode id) :=
  h.of_rel (h.deleteNode? id)

theorem clear (h : Represents s g) : Represents s.clear g.clear := by
  rw [Store.clear, h.nodeOrder]
  exact List.foldl_rel h fun id _ _ _ hstep ↦ hstep.deleteNode id

end Store.Represents

end LayerCanvas
