import LayerCanvas.Proofs.Graph.Hit
import LayerCanvas.Proofs.Index.Adjacency
import Mathlib.Data.List.Dedup

/-!
Raising nodes. The order of painting is a list of names, and raising a node takes its name out of
the list and puts it behind the others. A press looks through the same list from its end, and finds
the node of each name by the index. As no name is listed twice, the raised node is the first one
that the press comes to, and of several that were raised it is the one that was raised last.
-/

set_option autoImplicit false
set_option relaxedAutoImplicit false

namespace LayerCanvas

/-! ### The last element of a changed list -/

section

variable {α : Type} {P : α → Prop} {xs ys : List α} {x : α}

/-- Taking out others leaves the last element with a property the last one. -/
theorem IsLast.filter (h : IsLast P xs x) {q : α → Bool} (hx : q x = true) :
    IsLast P (xs.filter q) x := by
  obtain ⟨hP, before, after, rfl, hafter⟩ := h
  refine ⟨hP, before.filter q, after.filter q, ?_, ?_⟩
  · rw [List.filter_append, List.filter_cons_of_pos hx]
  · intro y hy
    exact hafter y (List.mem_of_mem_filter hy)

/-- Elements without the property can follow. -/
theorem IsLast.append (h : IsLast P xs x) (hys : ∀ y ∈ ys, ¬ P y) : IsLast P (xs ++ ys) x := by
  obtain ⟨hP, before, after, rfl, hafter⟩ := h
  refine ⟨hP, before, after ++ ys, by simp, ?_⟩
  intro y hy
  rcases List.mem_append.mp hy with hy | hy
  · exact hafter y hy
  · exact hys y hy

theorem isLast_concat (hP : P x) : IsLast P (xs ++ [x]) x :=
  ⟨hP, xs, [], rfl, fun _ hy ↦ absurd hy List.not_mem_nil⟩

end

/-! ### Raising in the graph -/

namespace Graph

variable {C R : Type}

/-- The graph after several nodes have been raised, one after the other. -/
def raiseAll (g : Graph C R) (ids : List NodeId) : Graph C R := ids.foldl bringToFront g

variable {g : Graph C R} {n : Node C R} {P : Node C R → Prop}

/-- A raised node follows all others, which stay in their order. -/
theorem nodes_bringToFront (h : g.nodeIds.Nodup) (hn : n ∈ g.nodes) :
    (g.bringToFront n.id).nodes = (g.nodes.filter fun m ↦ m.id != n.id) ++ [n] := by
  classical
  have hone : (g.nodes.filter fun m ↦ m.id == n.id) = [n] := by
    have hunique (m : Node C R) (hm : m ∈ g.nodes) : (m.id == n.id) = (m == n) := by
      rw [Bool.eq_iff_iff, beq_iff_eq, beq_iff_eq]
      constructor
      · exact List.inj_on_of_nodup_map h hm hn
      · exact congrArg Node.id
    rw [List.filter_congr hunique, List.filter_beq,
      List.count_eq_one_of_mem (List.Nodup.of_map Node.id h) hn]
    rfl
  rw [bringToFront, hone]

theorem mem_nodes_bringToFront {id : NodeId} {m : Node C R} :
    m ∈ (g.bringToFront id).nodes ↔ m ∈ g.nodes := by
  by_cases hid : m.id = id <;> simp [bringToFront, hid]

theorem mem_nodes_raiseAll {ids : List NodeId} {m : Node C R} :
    m ∈ (g.raiseAll ids).nodes ↔ m ∈ g.nodes := by
  induction ids generalizing g with
  | nil => rfl
  | cons id rest ih => exact ih.trans mem_nodes_bringToFront

theorem nodeIds_raiseAll_perm (g : Graph C R) (ids : List NodeId) :
    (g.raiseAll ids).nodeIds.Perm g.nodeIds := by
  induction ids generalizing g with
  | nil => exact .refl _
  | cons id rest ih => exact (ih (g.bringToFront id)).trans (g.alike_bringToFront id).nodeIds

/-- Raising keeps a node the last one with a property, if no node without it is left behind. -/
theorem isLast_raiseAll (hlast : IsLast P g.nodes n) {ids : List NodeId}
    (hids : ∀ m ∈ g.nodes, m.id ∈ ids → ¬ P m) : IsLast P (g.raiseAll ids).nodes n := by
  induction ids generalizing g with
  | nil => exact hlast
  | cons id rest ih =>
    refine ih (g := g.bringToFront id) ?_ ?_
    · have hn : n.id ≠ id := by
        intro hid
        exact hids n hlast.mem (hid ▸ List.mem_cons_self) hlast.1
      refine (hlast.filter (by simpa using hn)).append ?_
      intro m hm
      obtain ⟨hm, hid⟩ := List.mem_filter.mp hm
      exact hids m hm (beq_iff_eq.mp hid ▸ List.mem_cons_self)
    · intro m hm hrest
      exact hids m (mem_nodes_bringToFront.mp hm) (List.mem_cons_of_mem _ hrest)

/-- Of several nodes that are raised, one is the last with a property if those that are raised after
it do not have it. -/
theorem isLast_raiseAll_append (h : g.nodeIds.Nodup) (hn : n ∈ g.nodes) (hP : P n)
    (before : List NodeId) {after : List NodeId} (hafter : ∀ m ∈ g.nodes, m.id ∈ after → ¬ P m) :
    IsLast P (g.raiseAll (before ++ n.id :: after)).nodes n := by
  have hraised : g.raiseAll (before ++ n.id :: after) =
      ((g.raiseAll before).bringToFront n.id).raiseAll after := by
    rw [raiseAll, List.foldl_append, List.foldl_cons]
    rfl
  have hnodup : (g.raiseAll before).nodeIds.Nodup :=
    (nodeIds_raiseAll_perm g before).nodup_iff.mpr h
  rw [hraised]
  refine isLast_raiseAll ?_ ?_
  · rw [nodes_bringToFront hnodup (mem_nodes_raiseAll.mpr hn)]
    exact isLast_concat hP
  · intro m hm
    exact hafter m (mem_nodes_raiseAll.mp (mem_nodes_bringToFront.mp hm))

end Graph

/-! ### Raising in the store -/

namespace Store

variable {C R : Type}

/-- The store after several nodes have been raised, one after the other. -/
def raiseAll (s : Store C R) (ids : List NodeId) : Store C R := ids.foldl bringToFront s

/-- Raising changes the order alone: the names that are raised follow the others, each where it was
raised last. -/
theorem raiseAll_eq {s : Store C R} (h : s.nodeOrder.Nodup) {ids : List NodeId}
    (hids : ∀ id ∈ ids, id ∈ s.nodeOrder) :
    s.raiseAll ids =
      { s with nodeOrder := (s.nodeOrder.filter fun id ↦ id ∉ ids) ++ ids.dedup } := by
  induction ids generalizing s with
  | nil => simp [raiseAll]
  | cons id rest ih =>
    obtain ⟨hid, hrest⟩ := List.forall_mem_cons.mp hids
    have hraised : s.bringToFront id =
        { s with nodeOrder := (s.nodeOrder.filter fun other ↦ other ≠ id) ++ [id] } := by
      rw [bringToFront, if_pos hid, h.erase_eq_filter]
      simp [bne, beq_eq_decide]
    have hmem (other : NodeId) (hother : other ∈ rest) :
        other ∈ (s.bringToFront id).nodeOrder := by
      rw [hraised]
      by_cases hsame : other = id <;> simp [hsame, hrest other hother]
    have hnodup : (s.bringToFront id).nodeOrder.Nodup := by
      rw [hraised]
      refine (h.filter _).append (List.nodup_singleton id) ?_
      simp
    have hfold : s.raiseAll (id :: rest) = (s.bringToFront id).raiseAll rest := rfl
    rw [hfold, ih hnodup hmem, hraised]
    simp only [List.filter_append, List.filter_filter, List.append_assoc]
    congr 2
    · exact List.filter_congr fun other _ ↦ by simp [Bool.and_comm]
    · by_cases hagain : id ∈ rest <;> simp [hagain]

theorem Represents.raiseAll {s : Store C R} {g : Graph C R} (h : Represents s g)
    (ids : List NodeId) : Represents (s.raiseAll ids) (g.raiseAll ids) :=
  List.foldl_rel h fun id _ _ _ hstep ↦ hstep.bringToFront id

/-- A press on a node that was raised, and after which no other node at the point was raised, finds
that node. -/
theorem Represents.hit_raiseAll {s : Store Float32 Float} {g : Graph} (h : Represents s g)
    {n : Node} (hn : n ∈ g.nodes) (before : List NodeId) {after : List NodeId}
    (settings : EditorConfig) (hovered : Option ConnectionId) {p : Point}
    (hp : n.contains p = true) (hafter : ∀ m ∈ s.nodes, m.id ∈ after → ¬ m.contains p = true)
    (hdots : ∀ m ∈ s.nodes, ¬ m.HasDotAt settings.pointRadius p) :
    (s.raiseAll (before ++ n.id :: after)).toGraph.hit settings hovered p =
      .node n.id n.origin := by
  rw [h.nodes_eq] at hafter hdots
  rw [(h.raiseAll _).toGraph_eq]
  refine Graph.Topmost.hit_eq (.node ?_
    (Graph.isLast_raiseAll_append h.nodup_nodeIds hn hp before hafter))
  rintro ⟨m, hm, hdot⟩
  exact hdots m (Graph.mem_nodes_raiseAll.mp hm) hdot

/-- Every name in the order of painting is that of a node. -/
theorem Represents.exists_node {s : Store C R} {g : Graph C R} (h : Represents s g) {id : NodeId}
    (hid : id ∈ s.nodeOrder) :
    ∃ n ∈ g.nodes, n.id = id ∧ (s.node? id).map Prod.snd = some n := by
  rw [h.nodeOrder] at hid
  obtain ⟨n, hn, rfl⟩ := List.mem_map.mp hid
  refine ⟨n, hn, rfl, ?_⟩
  rw [h.map_node?]
  exact (Graph.node?_eq_some_iff h.nodup_nodeIds).mpr ⟨hn, rfl⟩

/-! ### Runs -/

/-- After any calls, raising a node puts it behind all others in the order of painting and changes
nothing else, and a press on a point of it that is near no dot finds it. Several nodes that are
raised come to lie on top in the order in which each was raised last, and a press finds the one that
was raised last among those at the point. -/
theorem raised_on_top (slots : Slots) (config : EditorConfig) (serial : Nat)
    (calls : List (Call Float32 Float)) :
    let s := run slots config serial calls
    (∀ id ∈ s.nodeOrder, ∃ n, (s.node? id).map Prod.snd = some n ∧
      s.bringToFront id =
        { s with nodeOrder := (s.nodeOrder.filter fun other ↦ other ≠ id) ++ [id] } ∧
      (s.bringToFront id).nodes = (s.nodes.filter fun m ↦ m.id ≠ id) ++ [n] ∧
      ∀ (settings : EditorConfig) (hovered : Option ConnectionId) (p : Point),
        n.contains p = true → (∀ m ∈ s.nodes, ¬ m.HasDotAt settings.pointRadius p) →
          (s.bringToFront id).toGraph.hit settings hovered p = .node id n.origin) ∧
    ∀ ids : List NodeId, (∀ id ∈ ids, id ∈ s.nodeOrder) →
      s.raiseAll ids =
          { s with nodeOrder := (s.nodeOrder.filter fun id ↦ id ∉ ids) ++ ids.dedup } ∧
        ∀ (before : List NodeId) (id : NodeId) (after : List NodeId),
          ids = before ++ id :: after → ∃ n, (s.node? id).map Prod.snd = some n ∧
            ∀ (settings : EditorConfig) (hovered : Option ConnectionId) (p : Point),
              n.contains p = true → (∀ m ∈ s.nodes, m.id ∈ after → ¬ m.contains p = true) →
                (∀ m ∈ s.nodes, ¬ m.HasDotAt settings.pointRadius p) →
                  (s.raiseAll ids).toGraph.hit settings hovered p = .node id n.origin := by
  intro s
  have hrun : Represents s (Graph.run config serial calls) :=
    represents_run slots config serial calls
  have hnodup : s.nodeOrder.Nodup := by
    rw [hrun.nodeOrder]
    exact hrun.nodup_nodeIds
  -- One node that is raised is a list of one, so the equation for lists serves both parts.
  refine ⟨?_, ?_⟩
  · intro id hid
    obtain ⟨n, hn, rfl, hnode⟩ := hrun.exists_node hid
    refine ⟨n, hnode, ?_, ?_, ?_⟩
    · have hone : s.raiseAll [n.id] = _ := raiseAll_eq hnodup (by simpa using hid)
      simpa [raiseAll] using hone
    · rw [(hrun.bringToFront n.id).nodes_eq, hrun.nodes_eq,
        Graph.nodes_bringToFront hrun.nodup_nodeIds hn]
      simp [bne, beq_eq_decide]
    · intro settings hovered p hp
      have hone : s.bringToFront n.id = s.raiseAll ([] ++ [n.id]) := rfl
      rw [hone]
      exact hrun.hit_raiseAll hn [] settings hovered hp fun m _ hm ↦ absurd hm List.not_mem_nil
  · intro ids hids
    refine ⟨raiseAll_eq hnodup hids, ?_⟩
    rintro before id after rfl
    obtain ⟨n, hn, rfl, hnode⟩ := hrun.exists_node (hids id (by simp))
    refine ⟨n, hnode, ?_⟩
    intro settings hovered p hp hafter hdots
    exact hrun.hit_raiseAll hn before settings hovered hp hafter hdots

/-- Two nodes overlap. A press on both finds the second one, and the first one when that is raised. -/
theorem raised_on_top_overlapping :
    ∃ (calls : List (Call Float32 Float)) (p : Point),
      let s := run .behind .standard 1 calls
      s.nodeOrder = [⟨"a"⟩, ⟨"b"⟩] ∧
        s.toGraph.hit .standard none p = .node ⟨"b"⟩ ⟨50, 30⟩ ∧
          (s.bringToFront ⟨"a"⟩).toGraph.hit .standard none p = .node ⟨"a"⟩ ⟨0, 0⟩ ∧
            (s.raiseAll [⟨"b"⟩, ⟨"a"⟩, ⟨"b"⟩]).nodeOrder = [⟨"a"⟩, ⟨"b"⟩] := by
  let layer : Layer := ⟨"", "", "", "", .ofList [], "", ""⟩
  let calls : List (Call Float32 Float) :=
    [.insertNode ⟨⟨"a"⟩, layer, ⟨0, 0⟩, 140, 86⟩, .insertNode ⟨⟨"b"⟩, layer, ⟨50, 30⟩, 140, 86⟩]
  let p : Point := ⟨60, 50⟩
  have hrun := represents_run (C := Float32) (R := Float) .behind .standard 1 calls
  have horder : (run .behind .standard 1 calls).nodeOrder = [⟨"a"⟩, ⟨"b"⟩] := by
    rw [hrun.nodeOrder]
    decide +kernel
  obtain ⟨hraise, hraiseAll⟩ := raised_on_top .behind .standard 1 calls
  obtain ⟨n, hnode, -, -, hpress⟩ := hraise ⟨"a"⟩ (by simp [horder])
  rw [hrun.map_node?] at hnode
  obtain rfl : n = ⟨⟨"a"⟩, layer, ⟨0, 0⟩, 140, 86⟩ :=
    Option.some.inj (hnode.symm.trans (by decide +kernel))
  obtain ⟨hall, -⟩ := hraiseAll [⟨"b"⟩, ⟨"a"⟩, ⟨"b"⟩] (by simp [horder])
  refine ⟨calls, p, horder, ?_, ?_, ?_⟩
  · rw [hrun.toGraph_eq]
    decide +kernel
  · refine hpress .standard none p (by decide +kernel) ?_
    rw [hrun.nodes_eq]
    decide +kernel
  · rw [hall, horder]
    decide +kernel

end Store

end LayerCanvas
