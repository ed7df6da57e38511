import LayerCanvas.Proofs.Index.Simulation

/-!
What the parts of a store say of each other. After every run the orders list the names in the
indices, each once, the indices and the arena agree in both directions, edges lie between the nodes
that their connections name, and neither the leaving nodes nor the tweens name anything that is not
stored. Read off in the two orders, the store is the graph of the run.
-/

set_option autoImplicit false
set_option relaxedAutoImplicit false

namespace LayerCanvas

/-- Looking for the names of all items finds the items. -/
theorem filterMap_find?_name {α β : Type} [DecidableEq β] {f : α → β} {l : List α}
    (h : (l.map f).Nodup) : ((l.map f).filterMap fun b ↦ l.find? fun x ↦ f x == b) = l := by
  rw [List.filterMap_map]
  calc l.filterMap ((fun b ↦ l.find? fun x ↦ f x == b) ∘ f)
      = l.filterMap some :=
        List.filterMap_congr fun x hx ↦ (find?_name_eq_some_iff h).mpr ⟨hx, rfl⟩
    _ = l := List.filterMap_some

namespace Store

variable {C R : Type}

/-- All parts of the store describe one graph. -/
structure Coherent (s : Store C R) : Prop where
  nodeOrder_nodup : s.nodeOrder.Nodup
  mem_nodeOrder_iff : ∀ id, id ∈ s.nodeOrder ↔ id ∈ s.nodeIndex
  /-- The node stored under a name has the name. -/
  node_of_index : ∀ id place, s.nodeIndex[id]? = some place →
    ∃ n, s.arena.node? place = some (place, n) ∧ n.id = id
  /-- No node is stored outside the index. -/
  index_of_node : ∀ entry ∈ s.arena.nodes, s.nodeIndex[entry.2.id]? = some entry.1
  edgeOrder_nodup : s.edgeOrder.Nodup
  mem_edgeOrder_iff : ∀ id, id ∈ s.edgeOrder ↔ id ∈ s.edgeIndex
  /-- The connection stored under a name has the name, and is an edge from the stored node of its
  source to the stored node of its target. -/
  edge_of_index : ∀ id place, s.edgeIndex[id]? = some place →
    ∃ e, s.arena.edge? place = some e ∧ e.weight.id = id ∧
      s.nodeIndex[e.weight.source]? = some e.source ∧
        s.nodeIndex[e.weight.target]? = some e.target
  /-- No edge is stored outside the index. -/
  index_of_edge : ∀ e ∈ s.arena.edges, s.edgeIndex[e.weight.id]? = some e.place
  leaving_nodup : s.leaving.Nodup
  leaving_mem : ∀ id ∈ s.leaving, id ∈ s.nodeIndex
  tweens_mem : ∀ id ∈ s.animator.ids, id ∈ s.edgeIndex

/-- The graph as it is read off the store: the names in their orders, each looked up. -/
def toGraph (s : Store C R) : Graph C R :=
  { config := s.config
    nodes := s.nodeOrder.filterMap fun id ↦ (s.node? id).map Prod.snd
    connections := s.edgeOrder.filterMap fun id ↦ (s.edge? id).map Edge.weight
    leaving := s.leaving
    animator := s.animator
    serial := s.serial }

namespace Represents

variable {s : Store C R} {g : Graph C R}

theorem toGraph_eq (h : Represents s g) : s.toGraph = g := by
  have hnodes : g.nodeIds.filterMap g.node? = g.nodes := filterMap_find?_name h.nodup_nodeIds
  have hconnections : g.connectionIds.filterMap g.connection? = g.connections :=
    filterMap_find?_name h.nodup_connectionIds
  simp only [toGraph, h.map_node?, h.map_edge?, h.config, h.nodeOrder, h.edgeOrder, h.leaving,
    h.animator, h.serial]
  rw [hnodes, hconnections]

theorem coherent (h : Represents s g) (hg : g.WellFormed) : s.Coherent where
  nodeOrder_nodup := by
    rw [h.nodeOrder]
    exact hg.nodeIds_nodup
  mem_nodeOrder_iff id := by rw [h.nodeOrder, h.mem_nodeIndex_iff]
  node_of_index id place hplace := by
    obtain ⟨entry, hentry, rfl, hid⟩ := (h.nodeIndex id place).mp hplace
    exact ⟨entry.2, Arena.node?_eq_some_iff.mpr ⟨hentry, rfl⟩, hid⟩
  index_of_node entry hentry := h.nodeIndex.getElem?_name hentry
  edgeOrder_nodup := by
    rw [h.edgeOrder]
    exact hg.connectionIds_nodup
  mem_edgeOrder_iff id := by rw [h.edgeOrder, h.mem_edgeIndex_iff]
  edge_of_index id place hplace := by
    obtain ⟨e, he, heplace, hid⟩ := (h.edgeIndex id place).mp hplace
    exact ⟨e, Arena.edge?_eq_some_iff.mpr ⟨he, heplace⟩, hid, h.ends e he⟩
  index_of_edge e he := h.edgeIndex.getElem?_name he
  leaving_nodup := by
    rw [h.leaving]
    exact hg.leaving_nodup
  leaving_mem id hid := by
    rw [h.leaving] at hid
    exact h.mem_nodeIndex_iff.mpr (hg.leaving_mem id hid)
  tweens_mem id hid := by
    rw [h.animator] at hid
    exact h.mem_edgeIndex_iff.mpr (hg.tweens_mem id hid)

end Represents

variable [Scalar C] [Scalar R] [Precision C R]

/-- After any calls all parts of the store describe one graph, and it is the graph that the calls
lead to. -/
theorem coherent_run (slots : Slots) (config : EditorConfig C R) (serial : Nat)
    (calls : List (Call C R)) :
    (run slots config serial calls).Coherent ∧
      (run slots config serial calls).toGraph = Graph.run config serial calls := by
  have hrun := represents_run slots config serial calls
  exact ⟨hrun.coherent (Graph.wellFormed_run config serial calls), hrun.toGraph_eq⟩

end Store

end LayerCanvas
