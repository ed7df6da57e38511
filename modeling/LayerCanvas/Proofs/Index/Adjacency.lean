import LayerCanvas.Proofs.Index.Coherent
import Mathlib.Algebra.BigOperators.Group.Finset.Basic
import Mathlib.Algebra.GroupWithZero.Nat

/-!
What the store says of the connections at a node. The arena finds them at the place of the node, by
its own lists of edges, and not in the order of connections; the two agree all the same. The
connections that leave a node are those of the order whose source it is, the newest first, and the
same holds of those that enter it. As every connection begins and ends at one stored node, the
outputs of all nodes are as many as the inputs, and as the connections.
-/

set_option autoImplicit false
set_option relaxedAutoImplicit false

namespace LayerCanvas

/-- Counting the items with each of several keys counts all items, if they have no other keys. -/
theorem sum_length_filter {α κ : Type} [DecidableEq κ] {f : α → κ} {keys : List κ} {l : List α}
    (hkeys : keys.Nodup) (hmem : ∀ x ∈ l, f x ∈ keys) :
    (keys.map fun key ↦ (l.filter fun x ↦ f x == key).length).sum = l.length := by
  have hcount (key : κ) : (l.filter fun x ↦ f x == key).length = (l.map f).count key := by
    rw [List.count, List.countP_map, List.countP_eq_length_filter]
    rfl
  calc (keys.map fun key ↦ (l.filter fun x ↦ f x == key).length).sum
      = (keys.map fun key ↦ (l.map f).count key).sum := by simp only [hcount]
    _ = ∑ key ∈ keys.toFinset, (l.map f).count key := (List.sum_toFinset _ hkeys).symm
    _ = (l.map f).length := by
        have hcard := Multiset.sum_count_eq_card (s := keys.toFinset) (m := ↑(l.map f))
          (by simpa using hmem)
        simpa only [Multiset.coe_count, Multiset.coe_card] using hcard
    _ = l.length := List.length_map ..

namespace Arena

variable {N E : Type}

/-- The edges at a node in a direction; of both directions, the outgoing ones first. -/
def directed (a : Arena N E) (place : Nat) : Direction → List (Edge E)
  | .outgoing => a.outgoing place
  | .incoming => a.incoming place
  | .both => a.touching place

end Arena

namespace Store

variable {C R : Type}

/-! ### Queries -/

/-- The nodes in the order they are painted. -/
def nodes (s : Store C R) : List (Node C R) :=
  s.nodeOrder.filterMap fun id ↦ (s.node? id).map Prod.snd

/-- The connections in the order they were made. -/
def connections (s : Store C R) : List (Connection C) :=
  s.edgeOrder.filterMap fun id ↦ (s.edge? id).map Edge.weight

/-- The connections that count. -/
def liveConnections (s : Store C R) : List (Connection C) := s.connections.filter Connection.isLive

/-- The live connections of a node, as the arena lists them. -/
def touching (s : Store C R) (id : NodeId) (direction : Direction) : List (Connection C) :=
  match s.nodeIndex[id]? with
  | none => []
  | some place => ((s.arena.directed place direction).map Edge.weight).filter Connection.isLive

/-- The numbers of live connections of a node. -/
def degree (s : Store C R) (id : NodeId) : Degree :=
  ⟨(s.touching id .incoming).length, (s.touching id .outgoing).length⟩

/-- The counts of the whole store. -/
def stats (s : Store C R) : Stats := ⟨s.nodeIndex.size, s.liveConnections.length⟩

namespace Represents

variable {s : Store C R} {g : Graph C R}

theorem nodes_eq (h : Represents s g) : s.nodes = g.nodes := congrArg Graph.nodes h.toGraph_eq

theorem connections_eq (h : Represents s g) : s.connections = g.connections :=
  congrArg Graph.connections h.toGraph_eq

theorem liveConnections_eq (h : Represents s g) : s.liveConnections = g.liveConnections :=
  congrArg (List.filter Connection.isLive) h.connections_eq

/-- The arena and the order of connections tell the same of a node, in the same order. -/
theorem touching_eq (h : Represents s g) (hg : g.WellFormed) (id : NodeId)
    (direction : Direction) : s.touching id direction = g.touching id direction := by
  have hlive (p : Connection C → Bool) : ((g.connections.filter p).reverse.filter
      Connection.isLive) = (g.liveConnections.filter p).reverse := by
    rw [List.filter_reverse, Graph.liveConnections, List.filter_filter, List.filter_filter]
    simp only [Bool.and_comm]
  unfold Store.touching
  cases hplace : s.nodeIndex[id]? with
  | none =>
    -- Nothing begins or ends at a name that no node has.
    have hid : id ∉ g.nodeIds := fun hid ↦ by
      have hindex := h.mem_nodeIndex_iff.mpr hid
      simp [Std.HashMap.mem_iff_isSome_getElem?, hplace] at hindex
    have hnone : ∀ c ∈ g.liveConnections, c.source ≠ id ∧ c.target ≠ id := fun c hc ↦ by
      have hmem := (Graph.mem_liveConnections.mp hc).1
      exact ⟨fun heq ↦ hid (heq ▸ hg.source_mem hmem), fun heq ↦ hid (heq ▸ hg.target_mem hmem)⟩
    have hout : g.outgoing id = [] := by
      simpa [Graph.outgoing] using fun c hc ↦ (hnone c hc).1
    have hin : g.incoming id = [] := by
      simpa [Graph.incoming] using fun c hc ↦ (hnone c hc).2
    cases direction <;> simp [Graph.touching, hout, hin]
  | some place =>
    have hout := h.map_outgoing hplace
    have hin := h.map_incoming hplace
    cases direction <;>
      simp only [Arena.directed, Arena.touching, List.map_append, List.filter_append, hout, hin,
        hlive, Graph.touching, Graph.outgoing, Graph.incoming]

theorem degree_eq (h : Represents s g) (hg : g.WellFormed) (id : NodeId) :
    s.degree id = g.degree id := by
  simp only [Store.degree, h.touching_eq hg]
  rfl

theorem stats_eq (h : Represents s g) : s.stats = g.stats := by
  have hkeys := (h.nodeIndex.keys_perm s.arena.nodes_nodup).trans h.node_names
  have hsize : s.nodeIndex.size = g.nodes.length := by
    rw [← Std.HashMap.length_keys, hkeys.length_eq, Graph.nodeIds, List.length_map]
  rw [Store.stats, hsize, h.liveConnections_eq, Graph.stats]

end Represents

end Store

/-! ### Counting from both ends -/

namespace Graph.WellFormed

variable {C R : Type} {g : Graph C R}

theorem sum_outputs (h : g.WellFormed) :
    (g.nodes.map fun n ↦ (g.degree n.id).outputs).sum = g.liveConnections.length := by
  have hmem : ∀ c ∈ g.liveConnections, c.source ∈ g.nodeIds := fun c hc ↦
    h.source_mem (mem_liveConnections.mp hc).1
  rw [← sum_length_filter h.nodeIds_nodup hmem, nodeIds, List.map_map]
  simp [degree, outgoing, Function.comp_def]

theorem sum_inputs (h : g.WellFormed) :
    (g.nodes.map fun n ↦ (g.degree n.id).inputs).sum = g.liveConnections.length := by
  have hmem : ∀ c ∈ g.liveConnections, c.target ∈ g.nodeIds := fun c hc ↦
    h.target_mem (mem_liveConnections.mp hc).1
  rw [← sum_length_filter h.nodeIds_nodup hmem, nodeIds, List.map_map]
  simp [degree, incoming, Function.comp_def]

end Graph.WellFormed

namespace Store

variable {C R : Type} [Scalar C] [Scalar R] [Precision C R]

/-- After any calls, what is asked of the arena at a node agrees with the order of connections, and
the outputs of all nodes, the inputs of all nodes and the connections that count are as many. -/
theorem adjacency_agrees (slots : Slots) (config : EditorConfig C R) (serial : Nat)
    (calls : List (Call C R)) :
    let s := run slots config serial calls
    let outward (id : NodeId) := (s.liveConnections.filter fun c ↦ c.source == id).reverse
    let inward (id : NodeId) := (s.liveConnections.filter fun c ↦ c.target == id).reverse
    (∀ id, s.touching id .outgoing = outward id ∧ s.touching id .incoming = inward id ∧
        s.touching id .both = outward id ++ inward id ∧
          s.degree id = ⟨(inward id).length, (outward id).length⟩) ∧
      (s.nodes.map fun n ↦ (s.degree n.id).outputs).sum = s.stats.connections ∧
      (s.nodes.map fun n ↦ (s.degree n.id).inputs).sum = s.stats.connections ∧
      s.stats.connections = s.liveConnections.length := by
  intro s outward inward
  have hwf := Graph.wellFormed_run config serial calls
  have h : Represents s _ := represents_run slots config serial calls
  simp only [outward, inward, h.touching_eq hwf, h.degree_eq hwf, h.liveConnections_eq,
    h.nodes_eq, h.stats_eq]
  refine ⟨fun id ↦ ⟨rfl, rfl, rfl, rfl⟩, ?_, ?_, rfl⟩
  · exact hwf.sum_outputs
  · exact hwf.sum_inputs

end Store

end LayerCanvas
