import LayerCanvas.Proofs.Index.Basic
import LayerCanvas.Proofs.Index.Store

/-!
When a store holds a graph. The arena has the nodes of the graph in any order and its connections in
the order they were made, both indices are right about the arena, and every edge lies between the
places of the nodes that its connection names. Each step of a call keeps this, with the step of the
graph that it stands for.
-/

set_option autoImplicit false
set_option relaxedAutoImplicit false

namespace LayerCanvas.Store

variable {C R : Type}

/-- The store holds the graph. -/
structure Represents (s : Store C R) (g : Graph C R) : Prop where
  config : s.config = g.config
  serial : s.serial = g.serial
  leaving : s.leaving = g.leaving
  animator : s.animator = g.animator
  nodes : (s.arena.nodes.map Prod.snd).Perm g.nodes
  nodeOrder : s.nodeOrder = g.nodeIds
  nodeIndex : Indexes s.nodeIndex Prod.fst (fun entry ↦ entry.2.id) s.arena.nodes
  edges : s.arena.edges.map Edge.weight = g.connections
  edgeOrder : s.edgeOrder = g.connectionIds
  edgeIndex : Indexes s.edgeIndex Edge.place (fun e ↦ e.weight.id) s.arena.edges
  ends : ∀ e ∈ s.arena.edges,
    s.nodeIndex[e.weight.source]? = some e.source ∧ s.nodeIndex[e.weight.target]? = some e.target

namespace Represents

variable {s : Store C R} {g : Graph C R}

theorem empty (config : EditorConfig C R) (serial given : Nat) :
    Represents (Store.empty config serial given) (Graph.empty config serial) where
  config := rfl
  serial := rfl
  leaving := rfl
  animator := rfl
  nodes := .refl _
  nodeOrder := rfl
  nodeIndex := Indexes.nil
  edges := rfl
  edgeOrder := rfl
  edgeIndex := Indexes.nil
  ends := fun _ he ↦ absurd he List.not_mem_nil

/-! ### Looking up -/

theorem node_names (h : Represents s g) :
    (s.arena.nodes.map fun entry ↦ entry.2.id).Perm g.nodeIds := by
  simpa [Graph.nodeIds, Function.comp_def] using h.nodes.map Node.id

theorem edge_names (h : Represents s g) :
    (s.arena.edges.map fun e ↦ e.weight.id) = g.connectionIds := by
  rw [Graph.connectionIds, ← h.edges, List.map_map]
  rfl

theorem nodup_nodeIds (h : Represents s g) : g.nodeIds.Nodup :=
  h.node_names.nodup_iff.mp (h.nodeIndex.nodup_names s.arena.nodes_nodup)

theorem nodup_connectionIds (h : Represents s g) : g.connectionIds.Nodup :=
  h.edge_names ▸ h.edgeIndex.nodup_names s.arena.edges_nodup

theorem mem_nodeIndex_iff (h : Represents s g) {id : NodeId} :
    id ∈ s.nodeIndex ↔ id ∈ g.nodeIds := by
  rw [h.nodeIndex.mem_iff, h.node_names.mem_iff]

theorem mem_edgeIndex_iff (h : Represents s g) {id : ConnectionId} :
    id ∈ s.edgeIndex ↔ id ∈ g.connectionIds := by
  rw [h.edgeIndex.mem_iff, h.edge_names]

theorem contains_nodeIndex (h : Represents s g) (id : NodeId) :
    s.nodeIndex.contains id = g.contains id := by
  rw [Bool.eq_iff_iff, Std.HashMap.contains_iff_mem, h.mem_nodeIndex_iff, Graph.contains_iff]

theorem contains_edgeIndex (h : Represents s g) (id : ConnectionId) :
    s.edgeIndex.contains id = g.containsConnection id := by
  rw [Bool.eq_iff_iff, Std.HashMap.contains_iff_mem, h.mem_edgeIndex_iff,
    Graph.containsConnection_iff]

theorem contains_eq (h : Represents s g) (id : NodeId) :
    g.contains id = s.nodeIndex[id]?.isSome := by
  rw [← h.contains_nodeIndex, Std.HashMap.isSome_getElem?_eq_contains]

theorem containsConnection_eq (h : Represents s g) (id : ConnectionId) :
    g.containsConnection id = s.edgeIndex[id]?.isSome := by
  rw [← h.contains_edgeIndex, Std.HashMap.isSome_getElem?_eq_contains]

theorem node?_eq (h : Represents s g) (id : NodeId) :
    s.node? id = s.arena.nodes.find? fun entry ↦ entry.2.id == id :=
  h.nodeIndex.bind_find? s.arena.nodes_nodup id

theorem edge?_eq (h : Represents s g) (id : ConnectionId) :
    s.edge? id = s.arena.edges.find? fun e ↦ e.weight.id == id :=
  h.edgeIndex.bind_find? s.arena.edges_nodup id

theorem place_of_node? (h : Represents s g) {id : NodeId} {entry : Nat × Node C R}
    (hentry : s.node? id = some entry) : s.nodeIndex[id]? = some entry.1 := by
  rw [h.node?_eq] at hentry
  have hid : entry.2.id = id := by simpa using List.find?_some hentry
  exact hid ▸ h.nodeIndex.getElem?_name (List.mem_of_find?_eq_some hentry)

theorem place_of_edge? (h : Represents s g) {id : ConnectionId} {e : Edge (Connection C)}
    (he : s.edge? id = some e) : s.edgeIndex[id]? = some e.place := by
  rw [h.edge?_eq] at he
  have hid : e.weight.id = id := by simpa using List.find?_some he
  exact hid ▸ h.edgeIndex.getElem?_name (List.mem_of_find?_eq_some he)

theorem map_node? (h : Represents s g) (id : NodeId) :
    (s.node? id).map Prod.snd = g.node? id := by
  have hnames := h.nodeIndex.nodup_names s.arena.nodes_nodup
  ext n
  rw [h.node?_eq, Graph.node?, Option.map_eq_some_iff, find?_name_eq_some_iff h.nodup_nodeIds,
    ← h.nodes.mem_iff, List.mem_map]
  simp only [find?_name_eq_some_iff hnames]
  constructor
  · rintro ⟨entry, ⟨hentry, hid⟩, rfl⟩
    exact ⟨⟨entry, hentry, rfl⟩, hid⟩
  · rintro ⟨⟨entry, hentry, rfl⟩, hid⟩
    exact ⟨entry, ⟨hentry, hid⟩, rfl⟩

theorem map_edge? (h : Represents s g) (id : ConnectionId) :
    (s.edge? id).map Edge.weight = g.connection? id := by
  rw [h.edge?_eq, Graph.connection?, ← h.edges, List.find?_map]
  rfl

/-! ### Edges at a node -/

theorem source_eq_iff (h : Represents s g) {id : NodeId} {place : Nat}
    (hplace : s.nodeIndex[id]? = some place) {e : Edge (Connection C)} (he : e ∈ s.arena.edges) :
    e.source = place ↔ e.weight.source = id :=
  h.nodeIndex.places_eq_iff s.arena.nodes_nodup (h.ends e he).1 hplace

theorem target_eq_iff (h : Represents s g) {id : NodeId} {place : Nat}
    (hplace : s.nodeIndex[id]? = some place) {e : Edge (Connection C)} (he : e ∈ s.arena.edges) :
    e.target = place ↔ e.weight.target = id :=
  h.nodeIndex.places_eq_iff s.arena.nodes_nodup (h.ends e he).2 hplace

/-- What is asked of the edges and what is asked of the connections have the same answer. -/
theorem map_filter_edges (h : Represents s g) {p : Edge (Connection C) → Bool}
    {q : Connection C → Bool} (hpq : ∀ e ∈ s.arena.edges, p e = true ↔ q e.weight = true) :
    (s.arena.edges.filter p).map Edge.weight = g.connections.filter q := by
  rw [← h.edges, List.filter_map, List.filter_congr fun e he ↦ Bool.eq_iff_iff.mpr (hpq e he)]
  rfl

theorem any_edges (h : Represents s g) {p : Edge (Connection C) → Bool} {q : Connection C → Bool}
    (hpq : ∀ e ∈ s.arena.edges, p e = true ↔ q e.weight = true) :
    s.arena.edges.any p = g.connections.any q := by
  rw [← h.edges, List.any_map, Bool.eq_iff_iff, List.any_eq_true, List.any_eq_true]
  exact exists_congr fun e ↦ and_congr_right (hpq e)

theorem map_outgoing (h : Represents s g) {id : NodeId} {place : Nat}
    (hplace : s.nodeIndex[id]? = some place) :
    (s.arena.outgoing place).map Edge.weight =
      (g.connections.filter fun c ↦ c.source == id).reverse := by
  rw [Arena.outgoing, List.map_reverse, h.map_filter_edges fun e he ↦ ?_]
  rw [beq_iff_eq, beq_iff_eq, h.source_eq_iff hplace he]

theorem map_incoming (h : Represents s g) {id : NodeId} {place : Nat}
    (hplace : s.nodeIndex[id]? = some place) :
    (s.arena.incoming place).map Edge.weight =
      (g.connections.filter fun c ↦ c.target == id).reverse := by
  rw [Arena.incoming, List.map_reverse, h.map_filter_edges fun e he ↦ ?_]
  rw [beq_iff_eq, beq_iff_eq, h.target_eq_iff hplace he]

theorem any_outgoing (h : Represents s g) {source target : NodeId} {a b : Nat}
    (ha : s.nodeIndex[source]? = some a) (hb : s.nodeIndex[target]? = some b) :
    (s.arena.outgoing a).any (fun e ↦ e.target == b && e.weight.isLive) =
      g.liveConnections.any fun c ↦ c.source == source && c.target == target := by
  rw [Arena.outgoing, List.any_reverse, List.any_filter, Graph.liveConnections, List.any_filter]
  refine h.any_edges fun e he ↦ ?_
  simp only [Bool.and_eq_true, beq_iff_eq, h.source_eq_iff ha he, h.target_eq_iff hb he]
  tauto

theorem joins_eq (h : Represents s g) {source target : NodeId} {a b : Nat}
    (ha : s.nodeIndex[source]? = some a) (hb : s.nodeIndex[target]? = some b) :
    s.arena.joins a b = g.connections.any fun c ↦ c.source == source && c.target == target := by
  refine h.any_edges fun e he ↦ ?_
  rw [Bool.and_eq_true, Bool.and_eq_true, beq_iff_eq, beq_iff_eq, beq_iff_eq, beq_iff_eq,
    h.source_eq_iff ha he, h.target_eq_iff hb he]

/-- The connections that the arena finds at a node are those of the graph, in the same order. -/
theorem incident_eq (h : Represents s g) {id : NodeId} {place : Nat}
    (hplace : s.nodeIndex[id]? = some place) :
    s.incident place = (g.touching id .both).map Connection.id := by
  have hweights : s.incident place =
      (((s.arena.touching place).map Edge.weight).filter Connection.isLive).map Connection.id := by
    rw [incident, List.filter_map, List.map_map]
    rfl
  rw [hweights, Arena.touching, List.map_append, h.map_outgoing hplace, h.map_incoming hplace,
    List.filter_append, List.filter_reverse, List.filter_reverse]
  simp only [Graph.touching, Graph.outgoing, Graph.incoming, Graph.liveConnections,
    List.filter_filter, Bool.and_comm]

theorem isEmpty_touching (h : Represents s g) {id : NodeId} {place : Nat}
    (hplace : s.nodeIndex[id]? = some place) :
    (s.arena.touching place).isEmpty = !g.isTouched id := by
  have htouched : g.isTouched id =
      s.arena.edges.any fun e ↦ e.source == place || e.target == place := by
    refine (h.any_edges fun e he ↦ ?_).symm
    rw [Bool.or_eq_true, beq_iff_eq, beq_iff_eq, h.source_eq_iff hplace he,
      h.target_eq_iff hplace he, Connection.touches_iff]
  rw [htouched, Bool.eq_iff_iff, List.isEmpty_iff, List.eq_nil_iff_forall_not_mem]
  simp [Arena.mem_touching]

end Represents

end LayerCanvas.Store
