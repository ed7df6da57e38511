import LayerCanvas.Proofs.Graph.Edit
import LayerCanvas.Proofs.Graph.Run

/-!
Moves of one node. A move writes the place of the node and one end of each connection at it, from
where the node goes and not from where it was. So a further move of the same node writes all of that
again, and of any number of moves nothing is left but the last one that was made.
-/

set_option autoImplicit false
set_option relaxedAutoImplicit false

namespace LayerCanvas

variable {C R : Type}

/-- The ends of a connection tell only where a node was put last. -/
theorem Connection.follow_follow [Scalar C] (c : Connection C) (n : Node C R) (a b : Point C) :
    (c.follow { n with origin := a }).follow { n with origin := b } =
      c.follow { n with origin := b } := by
  by_cases hsource : c.source = n.id <;> by_cases htarget : c.target = n.id <;>
    simp [follow, hsource, htarget]

/-- Two nodes are not at the same end of a connection, so each puts an end of its own. -/
theorem Connection.follow_comm [Scalar C] (c : Connection C) {m n : Node C R} (h : m.id ≠ n.id) :
    (c.follow m).follow n = (c.follow n).follow m := by
  have hone (id : NodeId) (p q r : Point C) :
      (if id = n.id then q else if id = m.id then p else r) =
        if id = m.id then p else if id = n.id then q else r := by
    by_cases hm : id = m.id
    · rw [if_neg (by rwa [hm]), if_pos hm, if_pos hm]
    · rw [if_neg hm, if_neg hm]
  dsimp only [follow]
  rw [hone, hone]

namespace Graph

variable [Scalar C] {g : Graph C R} {n : Node C R} {a b : Point C} {id : NodeId}

/-- A node of the graph can be moved to any place on the canvas. -/
theorem exists_moveNode?_eq_some {origin : Point C} (hid : id ∈ g.nodeIds)
    (hfinite : origin.isFinite = true) : ∃ moved, g.moveNode? id origin = some moved := by
  cases hnode : g.node? id with
  | none => exact absurd hid (node?_eq_none_iff.mp hnode)
  | some n => exact ⟨g.put n origin, moveNode?_eq_some_iff.mpr ⟨hfinite, n, hnode, rfl⟩⟩

/-- A node that was put somewhere is found there. -/
theorem node?_put (g : Graph C R) (n : Node C R) (origin : Point C) :
    (g.put n origin).node? n.id = (g.node? n.id).map fun m ↦ { m with origin } := by
  have hsame (m : Node C R) :
      ((if m.id = n.id then { m with origin } else m).id == n.id) = (m.id == n.id) := by
    split_ifs <;> rfl
  have hfind : (g.put n origin).node? n.id = (g.nodes.find? fun m ↦ m.id == n.id).map
      fun m ↦ if m.id = n.id then { m with origin } else m := by
    simp only [node?, put, updateNode, List.find?_map, Function.comp_def, hsame]
  rw [hfind]
  cases hnode : g.nodes.find? fun m ↦ m.id == n.id with
  | none => simp [node?, hnode]
  | some m =>
    have hid : m.id = n.id := id_of_node? (g := g) hnode
    simp [node?, hnode, hid]

/-- A node is found where it was when another one was put somewhere. -/
theorem node?_put_of_ne (g : Graph C R) {n : Node C R} (h : id ≠ n.id) (origin : Point C) :
    (g.put n origin).node? id = g.node? id := by
  have hsame (m : Node C R) :
      ((if m.id = n.id then { m with origin } else m).id == id) = (m.id == id) := by
    split_ifs <;> rfl
  have hfind : (g.put n origin).node? id = (g.nodes.find? fun m ↦ m.id == id).map
      fun m ↦ if m.id = n.id then { m with origin } else m := by
    simp only [node?, put, updateNode, List.find?_map, Function.comp_def, hsame]
  rw [hfind]
  cases hnode : g.nodes.find? fun m ↦ m.id == id with
  | none => simp [node?, hnode]
  | some m =>
    have hid : m.id = id := id_of_node? (g := g) hnode
    have hne : m.id ≠ n.id := by
      rw [hid]
      exact h
    simp [node?, hnode, hne]

/-- Of two places that a node is put to, one after the other, the second is left. -/
theorem put_put (g : Graph C R) (n : Node C R) (a b : Point C) :
    (g.put n a).put { n with origin := a } b = g.put n b := by
  have hnodes : ((g.nodes.map fun m ↦ if m.id = n.id then { m with origin := a } else m).map
      fun m ↦ if m.id = n.id then { m with origin := b } else m) =
        g.nodes.map fun m ↦ if m.id = n.id then { m with origin := b } else m := by
    rw [List.map_map]
    refine List.map_congr_left fun m _ ↦ ?_
    by_cases hid : m.id = n.id <;> simp [hid]
  have hconnections : ((g.connections.map fun c ↦ c.follow { n with origin := a }).map
      fun c ↦ c.follow { n with origin := b }) =
        g.connections.map fun c ↦ c.follow { n with origin := b } := by
    rw [List.map_map]
    exact List.map_congr_left fun c _ ↦ c.follow_follow n a b
  simp only [put, updateNode, hnodes, hconnections]

variable [Scalar R] [Precision C R]

/-- A move of a node comes to the same whether or not the node was moved before. -/
theorem moveNode?_apply_moveNode (g : Graph C R) (id : NodeId) (a b : Point C) :
    (g.apply (.moveNode id a)).moveNode? id b = g.moveNode? id b := by
  dsimp only [apply]
  rw [moveNode?_eq g id a]
  cases a.isFinite with
  | false => rfl
  | true =>
    cases hnode : g.node? id with
    | none => rfl
    | some n =>
      obtain rfl := id_of_node? hnode
      simp only [if_true, Option.map_some, Option.getD_some, moveNode?_eq, node?_put, hnode,
        put_put]

/-- A move of a node comes to the same after any moves of it. -/
theorem moveNode?_applyAll_moveNode (g : Graph C R) (id : NodeId) (origins : List (Point C))
    (b : Point C) :
    (g.applyAll (origins.map (.moveNode id))).moveNode? id b = g.moveNode? id b := by
  induction origins generalizing g with
  | nil => rfl
  | cons a rest ih =>
    rw [List.map_cons, applyAll_cons, ih, moveNode?_apply_moveNode]

end Graph

end LayerCanvas
