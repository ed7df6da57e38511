import LayerCanvas.Proofs.Graph.Change
import LayerCanvas.Proofs.Index.Represents

/-!
The steps that calls are made of: storing a node or an edge, changing what is stored, and taking
parts out. A step on a store that holds a graph leads to a store that holds the graph after the same
step.
-/

set_option autoImplicit false
set_option relaxedAutoImplicit false

namespace LayerCanvas

variable {C R : Type}

/-- Taking out connections one after the other takes out those that have the names. -/
theorem Graph.foldl_dropConnection (g : Graph C R) (ids : List ConnectionId) :
    ids.foldl dropConnection g =
      { g with
        connections := g.connections.filter fun c ↦ !ids.contains c.id
        animator := g.animator.keep fun id ↦ !ids.contains id } := by
  induction ids generalizing g with
  | nil => simp [Animator.keep_true]
  | cons id rest ih =>
    rw [List.foldl_cons, ih]
    simp only [dropConnection, Animator.cancel_eq_keep, Animator.keep_keep, List.filter_filter,
      List.contains_cons, Bool.not_or, bne, Bool.and_comm]

namespace Store

theorem foldl_forget (s : Store C R) (ids : List ConnectionId) :
    ids.foldl forget s =
      { s with
        edgeIndex := ids.foldl Std.HashMap.erase s.edgeIndex
        edgeOrder := s.edgeOrder.filter fun id ↦ !ids.contains id
        animator := s.animator.keep fun id ↦ !ids.contains id } := by
  induction ids generalizing s with
  | nil => simp [Animator.keep_true]
  | cons id rest ih =>
    rw [List.foldl_cons, ih]
    simp only [forget, Animator.cancel_eq_keep, Animator.keep_keep, List.filter_filter,
      List.contains_cons, Bool.not_or, bne, Bool.and_comm, List.foldl_cons]

namespace Represents

variable {s : Store C R} {g : Graph C R}

theorem pushNode (h : Represents s g) (slots : Slots) {n : Node C R} (hn : n.id ∉ g.nodeIds) :
    Represents (s.pushNode slots n) { g with nodes := g.nodes ++ [n] } := by
  have hnew : n.id ∉ s.arena.nodes.map fun entry ↦ entry.2.id := by
    rwa [h.node_names.mem_iff]
  have hindex := h.nodeIndex.insert (x := ((s.arena.addNode slots n).2, n)) hnew
  refine { h with nodes := ?_, nodeOrder := ?_, nodeIndex := hindex, ends := fun e he ↦ ?_ }
  · show ((s.arena.nodes ++ [_]).map Prod.snd).Perm _
    rw [List.map_append]
    exact h.nodes.append_right [n]
  · show s.nodeOrder ++ [n.id] = (g.nodes ++ [n]).map Node.id
    rw [h.nodeOrder, List.map_append]
    rfl
  · have hkeep (id : NodeId) {place : Nat} (hplace : s.nodeIndex[id]? = some place) :
        (s.nodeIndex.insert n.id (s.arena.addNode slots n).2)[id]? = some place := by
      have hmem : id ∈ g.nodeIds := by
        rw [← h.mem_nodeIndex_iff, Std.HashMap.mem_iff_isSome_getElem?, hplace]
        rfl
      have hne : n.id ≠ id := fun heq ↦ hn (heq ▸ hmem)
      rw [Std.HashMap.getElem?_insert, if_neg (by simpa using hne), hplace]
    exact ⟨hkeep _ (h.ends e he).1, hkeep _ (h.ends e he).2⟩

theorem pushEdge (h : Represents s g) (slots : Slots) {c : Connection C} {a b : Nat}
    (hc : c.id ∉ g.connectionIds) (ha : s.nodeIndex[c.source]? = some a)
    (hb : s.nodeIndex[c.target]? = some b) :
    Represents
      { s with
        arena := (s.arena.addEdge slots a b c).1
        edgeIndex := s.edgeIndex.insert c.id (s.arena.addEdge slots a b c).2
        edgeOrder := s.edgeOrder ++ [c.id] }
      { g with connections := g.connections ++ [c] } := by
  have hnew : c.id ∉ s.arena.edges.map fun e ↦ e.weight.id := by rwa [h.edge_names]
  have hindex := h.edgeIndex.insert (x := ⟨(s.arena.addEdge slots a b c).2, a, b, c⟩) hnew
  refine { h with edges := ?_, edgeOrder := ?_, edgeIndex := hindex, ends := fun e he ↦ ?_ }
  · show (s.arena.edges ++ [_]).map Edge.weight = _
    rw [List.map_append, h.edges]
    rfl
  · show s.edgeOrder ++ [c.id] = (g.connections ++ [c]).map Connection.id
    rw [h.edgeOrder, List.map_append]
    rfl
  · rcases List.mem_append.mp he with hold | hnew
    · exact h.ends e hold
    · rw [List.mem_singleton.mp hnew]
      exact ⟨ha, hb⟩

theorem modifyNode (h : Represents s g) {id : NodeId} {place : Nat}
    (hplace : s.nodeIndex[id]? = some place) {f : Node C R → Node C R} (hf : ∀ n, (f n).id = n.id) :
    Represents { s with arena := s.arena.modifyNode place f } (g.updateNode id f) := by
  refine { h with nodes := ?_, nodeOrder := ?_, nodeIndex := ?_ }
  · have hmap : (s.arena.modifyNode place f).nodes.map Prod.snd =
        (s.arena.nodes.map Prod.snd).map fun n ↦ if n.id = id then f n else n := by
      simp only [Arena.modifyNode, Arena.mapNodes, List.map_map]
      refine List.map_congr_left fun entry hentry ↦ ?_
      simp only [Function.comp_apply, h.nodeIndex.place_eq_iff s.arena.nodes_nodup hplace hentry]
    rw [hmap]
    exact h.nodes.map _
  · rw [g.nodeIds_updateNode id hf]
    exact h.nodeOrder
  · refine h.nodeIndex.map (fun _ _ ↦ rfl) fun entry _ ↦ ?_
    show (if entry.1 = place then f entry.2 else entry.2).id = entry.2.id
    split_ifs
    · exact hf entry.2
    · rfl

/-- What is stored at an edge may change, as long as the edge joins what it joined. -/
theorem mapEdges (h : Represents s g) {f : Edge (Connection C) → Connection C}
    {connections : List (Connection C)}
    (hlink : ∀ e ∈ s.arena.edges, (f e).link = e.weight.link)
    (hmap : s.arena.edges.map f = connections) :
    Represents { s with arena := s.arena.mapEdges f } { g with connections } := by
  have hid : ∀ e ∈ s.arena.edges, (f e).id = e.weight.id :=
    fun e he ↦ congrArg Prod.fst (hlink e he)
  refine { h with edges := ?_, edgeOrder := ?_, edgeIndex := ?_, ends := fun e he ↦ ?_ }
  · rw [← hmap]
    simp [Arena.mapEdges, Function.comp_def]
  · rw [h.edgeOrder, ← h.edge_names, Graph.connectionIds, ← hmap, List.map_map]
    exact List.map_congr_left fun e he ↦ (hid e he).symm
  · exact h.edgeIndex.map (fun _ _ ↦ rfl) hid
  · obtain ⟨old, hold, rfl⟩ := List.mem_map.mp he
    have hends : (f old).source = old.weight.source ∧ (f old).target = old.weight.target :=
      Prod.mk.inj (congrArg Prod.snd (hlink old hold))
    show s.nodeIndex[(f old).source]? = _ ∧ s.nodeIndex[(f old).target]? = _
    rw [hends.1, hends.2]
    exact h.ends old hold

theorem modifyEdge (h : Represents s g) {id : ConnectionId} {place : Nat}
    (hplace : s.edgeIndex[id]? = some place) {f : Connection C → Connection C}
    (hf : ∀ c, (f c).link = c.link) :
    Represents { s with arena := s.arena.modifyEdge place f } (g.updateConnection id f) := by
  refine h.mapEdges (fun e _ ↦ ?_) ?_
  · split_ifs
    · exact hf e.weight
    · rfl
  · rw [← h.edges, List.map_map]
    refine List.map_congr_left fun e he ↦ ?_
    simp only [Function.comp_apply, h.edgeIndex.place_eq_iff s.arena.edges_nodup hplace he]

/-- When edges are taken out of the arena, everything else forgets them. -/
theorem forgetAll (h : Represents s g) (ids : List ConnectionId)
    {p : Edge (Connection C) → Bool} (hp : ∀ e ∈ s.arena.edges, p e = !ids.contains e.weight.id) :
    Represents (ids.foldl forget { s with arena := s.arena.keepEdges p })
      (ids.foldl Graph.dropConnection g) := by
  rw [foldl_forget, Graph.foldl_dropConnection]
  refine { h with animator := ?_, edges := ?_, edgeOrder := ?_, edgeIndex := ?_, ends := ?_ }
  · rw [h.animator]
  · exact h.map_filter_edges fun e he ↦ by rw [hp e he]
  · rw [h.edgeOrder, Graph.connectionIds, Graph.connectionIds, List.filter_map]
    rfl
  · refine h.edgeIndex.filter (q := fun id ↦ !ids.contains id) (fun id ↦ ?_) hp
    rw [getElem?_foldl_erase]
    by_cases hid : id ∈ ids <;> simp [hid]
  · exact fun e he ↦ h.ends e (List.mem_of_mem_filter he)

theorem dropNode (h : Represents s g) {id : NodeId} {place : Nat}
    (hplace : s.nodeIndex[id]? = some place)
    (hends : ∀ e ∈ s.arena.edges, e.source ≠ place ∧ e.target ≠ place) :
    Represents
      { s with
        arena := s.arena.keepNodes fun entry ↦ entry.1 != place
        nodeIndex := s.nodeIndex.erase id
        nodeOrder := s.nodeOrder.filter fun other ↦ other != id
        leaving := s.leaving.filter fun other ↦ other != id }
      { g with
        nodes := g.nodes.filter fun n ↦ n.id != id
        leaving := g.leaving.filter fun other ↦ other != id } := by
  have hkept : ∀ entry ∈ s.arena.nodes, (entry.1 != place) = (entry.2.id != id) :=
    fun entry hentry ↦ by
      rw [Bool.eq_iff_iff, bne_iff_ne, bne_iff_ne]
      exact (h.nodeIndex.place_eq_iff s.arena.nodes_nodup hplace hentry).not
  refine { h with leaving := ?_, nodes := ?_, nodeOrder := ?_, nodeIndex := ?_, ends := ?_ }
  · rw [h.leaving]
  · show ((s.arena.nodes.filter _).map Prod.snd).Perm _
    have hmap : (s.arena.nodes.filter fun entry ↦ entry.1 != place).map Prod.snd =
        (s.arena.nodes.map Prod.snd).filter fun n ↦ n.id != id := by
      rw [List.filter_map, List.filter_congr hkept]
      rfl
    rw [hmap]
    exact h.nodes.filter _
  · rw [h.nodeOrder, Graph.nodeIds, Graph.nodeIds, List.filter_map]
    rfl
  · refine h.nodeIndex.filter (q := fun other ↦ other != id) (fun other ↦ ?_) hkept
    rw [Std.HashMap.getElem?_erase]
    by_cases hother : id = other
    · simp [hother]
    · simp [hother, Ne.symm hother]
  -- No edge has an end at the place, so both ends of every edge keep theirs in the index.
  · intro e he
    have hsource : e.weight.source ≠ id := (h.source_eq_iff hplace he).not.mp (hends e he).1
    have htarget : e.weight.target ≠ id := (h.target_eq_iff hplace he).not.mp (hends e he).2
    have hkeep (other : NodeId) (hother : other ≠ id) :
        (s.nodeIndex.erase id)[other]? = s.nodeIndex[other]? := by
      rw [Std.HashMap.getElem?_erase, if_neg (by simpa using hother.symm)]
    show (s.nodeIndex.erase id)[_]? = _ ∧ (s.nodeIndex.erase id)[_]? = _
    rw [hkeep _ hsource, hkeep _ htarget]
    exact h.ends e he

end Represents

end Store

end LayerCanvas
