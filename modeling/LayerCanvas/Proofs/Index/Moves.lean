import LayerCanvas.Proofs.Graph.Move
import LayerCanvas.Proofs.Index.Coherent

/-!
Moves of several nodes in the store. A move finds the node by the index, writes its place, and goes
through the edges that leave and that enter the place of the node to write one end of each. These
are the edges whose connections name the node, so a move writes what belongs to the node and nothing
else. What belongs to different nodes is different, even on a connection between the two, so their
moves can be made in either order; and a move of a node writes all that an earlier one did.
-/

set_option autoImplicit false
set_option relaxedAutoImplicit false

namespace LayerCanvas

variable {C R : Type}

theorem Arena.eq_of {N E : Type} {a b : Arena N E} (hnodes : a.nodes = b.nodes)
    (hedges : a.edges = b.edges) (hgiven : a.given = b.given) : a = b := by
  cases a
  cases b
  simp_all

namespace Store

variable [Scalar C] {s : Store C R} {g : Graph C R} {m n : Node C R}

/-! ### What a move writes -/

/-- The store with a node put somewhere, and the ends of the connections that name it. -/
def put (s : Store C R) (n : Node C R) (origin : Point C) : Store C R :=
  { s with
    arena :=
      (s.arena.mapNodes fun entry ↦
        if entry.2.id = n.id then { entry.2 with origin } else entry.2).mapEdges
          fun e ↦ e.weight.follow { n with origin } }

/-- The edges at the place of a node are those whose connections name it, so a move can be told by
names. -/
theorem Represents.moveNode?_eq (h : Represents s g) (id : NodeId) (origin : Point C) :
    s.moveNode? id origin =
      if origin.isFinite then (g.node? id).map fun n ↦ s.put n origin else none := by
  unfold Store.moveNode?
  cases hfinite : origin.isFinite with
  | false => rfl
  | true =>
    rw [← h.map_node?]
    cases hnode : s.node? id with
    | none => rfl
    | some entry =>
      obtain ⟨place, n⟩ := entry
      have hplace := h.place_of_node? hnode
      obtain rfl : n.id = id := by
        refine Graph.id_of_node? (g := g) ?_
        rw [← h.map_node?, hnode]
        rfl
      simp only [Bool.not_true, Bool.false_eq_true, if_false, if_true, Option.map_some,
        Option.some.injEq, put, Store.mk.injEq, and_true]
      refine Arena.eq_of ?_ ?_ rfl
      · refine List.map_congr_left fun entry hentry ↦ ?_
        simp only [h.nodeIndex.place_eq_iff s.arena.nodes_nodup hplace hentry]
      · simp only [Arena.mapEdges, Arena.modifyNode, Arena.mapNodes, List.map_map]
        refine List.map_congr_left fun e he ↦ ?_
        simp only [Function.comp_apply, h.source_eq_iff hplace he, h.target_eq_iff hplace he,
          Connection.follow]
        by_cases hsource : e.weight.source = n.id <;> by_cases htarget : e.weight.target = n.id <;>
          simp [hsource, htarget]

/-- Different nodes can be put somewhere in either order. -/
theorem put_comm (s : Store C R) (h : m.id ≠ n.id) (p q : Point C) :
    (s.put m p).put n q = (s.put n q).put m p := by
  simp only [put, Store.mk.injEq, and_true]
  refine Arena.eq_of ?_ ?_ rfl
  · simp only [Arena.mapEdges, Arena.mapNodes, List.map_map]
    refine List.map_congr_left fun entry _ ↦ ?_
    simp only [Function.comp_apply, Prod.mk.injEq, true_and]
    by_cases hm : entry.2.id = m.id
    · simp [hm, h]
    · by_cases hn : entry.2.id = n.id <;> simp [hm, hn, h.symm]
  · simp only [Arena.mapEdges, Arena.mapNodes, List.map_map]
    refine List.map_congr_left fun e _ ↦ ?_
    simp only [Function.comp_apply]
    rw [Connection.follow_comm _ (show ({ m with origin := p } : Node C R).id ≠
      ({ n with origin := q } : Node C R).id from h)]

/-- Of two places that a node is put to, one after the other, the second is left. -/
theorem put_put (s : Store C R) (n : Node C R) (p q : Point C) :
    (s.put n p).put { n with origin := p } q = s.put n q := by
  simp only [put, Store.mk.injEq, and_true]
  refine Arena.eq_of ?_ ?_ rfl
  · simp only [Arena.mapEdges, Arena.mapNodes, List.map_map]
    refine List.map_congr_left fun entry _ ↦ ?_
    by_cases hn : entry.2.id = n.id <;> simp [hn]
  · simp only [Arena.mapEdges, Arena.mapNodes, List.map_map]
    refine List.map_congr_left fun e _ ↦ ?_
    simp only [Function.comp_apply, Connection.follow_follow]

/-! ### Moves -/

/-- The store after a move, which may be refused. -/
def move (s : Store C R) (id : NodeId) (origin : Point C) : Store C R :=
  (s.moveNode? id origin).getD s

theorem Represents.move_eq_self (h : Represents s g) {id : NodeId} {origin : Point C}
    (hrefused : origin.isFinite = false ∨ g.node? id = none) : s.move id origin = s := by
  rw [move, h.moveNode?_eq]
  rcases hrefused with hinfinite | hnone
  · rw [if_neg (by simp [hinfinite])]
    rfl
  · simp [hnone]

theorem Represents.move_eq_put (h : Represents s g) {id : NodeId} {origin : Point C}
    (hfinite : origin.isFinite = true) (hnode : g.node? id = some n) :
    s.move id origin = s.put n origin := by
  rw [move, h.moveNode?_eq, if_pos hfinite, hnode]
  rfl

theorem Represents.put (h : Represents s g) {id : NodeId} {origin : Point C}
    (hfinite : origin.isFinite = true) (hnode : g.node? id = some n) :
    Represents (s.put n origin) (g.put n origin) := by
  have hrel := h.moveNode? id origin
  rw [h.moveNode?_eq, Graph.moveNode?_eq, if_pos hfinite, if_pos hfinite, hnode] at hrel
  cases hrel with
  | some hput => exact hput

/-- A move is refused, or it puts a node of the graph somewhere. -/
theorem Represents.move_cases (h : Represents s g) (id : NodeId) (origin : Point C) :
    (s.move id origin = s ∧ (origin.isFinite = false ∨ g.node? id = none)) ∨
      ∃ n, g.node? id = some n ∧ n.id = id ∧ origin.isFinite = true ∧
        s.move id origin = s.put n origin := by
  by_cases hfinite : origin.isFinite = true
  · cases hnode : g.node? id with
    | none => exact Or.inl ⟨h.move_eq_self (Or.inr hnode), Or.inr rfl⟩
    | some n =>
      exact Or.inr ⟨n, rfl, Graph.id_of_node? hnode, hfinite, h.move_eq_put hfinite hnode⟩
  · have hinfinite : origin.isFinite = false := by simpa using hfinite
    exact Or.inl ⟨h.move_eq_self (Or.inl hinfinite), Or.inl hinfinite⟩

theorem Represents.move_comm (h : Represents s g) {a b : NodeId} (hne : a ≠ b) (p q : Point C) :
    (s.move a p).move b q = (s.move b q).move a p := by
  obtain ⟨ha, hrefused⟩ | ⟨m, hm, rfl, hp, ha⟩ := h.move_cases a p
  · obtain ⟨hb, -⟩ | ⟨n, hn, rfl, hq, hb⟩ := h.move_cases b q
    · rw [ha, hb, ha]
    · rw [ha, hb, (h.put hq hn).move_eq_self]
      rwa [g.node?_put_of_ne hne]
  · have hput := h.put hp hm
    obtain ⟨hb, hrefused⟩ | ⟨n, hn, rfl, hq, hb⟩ := h.move_cases b q
    · rw [hb, ha, hput.move_eq_self]
      rwa [g.node?_put_of_ne hne.symm]
    · have hn' : (g.put m p).node? n.id = some n := by
        rw [g.node?_put_of_ne hne.symm]
        exact hn
      have hm' : (g.put n q).node? m.id = some m := by
        rw [g.node?_put_of_ne hne]
        exact hm
      rw [ha, hb, hput.move_eq_put hq hn', (h.put hq hn).move_eq_put hp hm']
      exact s.put_comm hne p q

theorem Represents.move_move (h : Represents s g) (id : NodeId) (p : Point C) {q : Point C}
    (hq : q.isFinite = true) : (s.move id p).move id q = s.move id q := by
  obtain ⟨hid, -⟩ | ⟨n, hn, rfl, hp, hid⟩ := h.move_cases id p
  · rw [hid]
  · have hn' : (g.put n p).node? n.id = some { n with origin := p } := by
      rw [Graph.node?_put, hn]
      rfl
    rw [hid, (h.put hp hn).move_eq_put hq hn', h.move_eq_put hq hn]
    exact s.put_put n p q

/-! ### Runs -/

/-- One store is another in which a node has come to where it is now: its position is written, and
so are the start of every connection that leaves it and the end of every one that enters it. -/
structure Moves (s s' : Store C R) (n : Node C R) : Prop where
  others : s' = { s with arena := s'.arena }
  given : s'.arena.given = s.arena.given
  nodes : s'.arena.nodes = s.arena.nodes.map fun entry ↦
    (entry.1, if entry.2.id = n.id then { entry.2 with origin := n.origin } else entry.2)
  edges : s'.arena.edges = s.arena.edges.map fun e ↦
    { e with
      weight :=
        { e.weight with
          start := if e.weight.source = n.id then n.outputAnchor else e.weight.start
          stop := if e.weight.target = n.id then n.inputAnchor else e.weight.stop } }

variable [Scalar R] [Precision C R]

/-- After any calls, moves of two nodes lead to the same store in either order, whatever connects
the nodes. Of two moves of one node only the second is left, if it goes to a place on the canvas. A
move that is made changes the position of the node and the ends at it of its connections, live and
fading, and nothing else; one that is refused changes nothing. -/
theorem moves_independent (slots : Slots) (config : EditorConfig C R) (serial : Nat)
    (calls : List (Call C R)) :
    let s := run slots config serial calls
    (∀ a b : NodeId, a ≠ b → ∀ p q : Point C,
      (s.move a p).move b q = (s.move b q).move a p) ∧
    (∀ (a : NodeId) (p q : Point C), q.isFinite = true →
      (s.move a p).move a q = s.move a q) ∧
    ∀ (a : NodeId) (p : Point C),
      (s.moveNode? a p = none ∧ s.move a p = s ∧ (p.isFinite = false ∨ a ∉ s.nodeOrder)) ∨
        ∃ n, (s.node? a).map Prod.snd = some n ∧ p.isFinite = true ∧
          s.moveNode? a p = some (s.move a p) ∧ s.Moves (s.move a p) { n with origin := p } := by
  intro s
  have hrun : Represents s (Graph.run config serial calls) :=
    represents_run slots config serial calls
  refine ⟨fun a b hne p q ↦ hrun.move_comm hne p q, fun a p q hq ↦ hrun.move_move a p hq, ?_⟩
  intro a p
  obtain ⟨hsame, hrefused⟩ | ⟨n, hn, rfl, hp, hmoved⟩ := hrun.move_cases a p
  · refine Or.inl ⟨?_, hsame, ?_⟩
    · rw [hrun.moveNode?_eq]
      rcases hrefused with hinfinite | hnone
      · exact if_neg (by simp [hinfinite])
      · simp [hnone]
    · rwa [hrun.nodeOrder, ← Graph.node?_eq_none_iff]
  · refine Or.inr ⟨n, (hrun.map_node? n.id).trans hn, hp, ?_, ?_⟩
    · rw [hmoved, hrun.moveNode?_eq, if_pos hp, hn]
      rfl
    · rw [hmoved]
      exact ⟨rfl, rfl, rfl, rfl⟩

/-- Two nodes are joined in both directions, and a connection between them fades while a new one has
taken its place. Their moves can be made in either order, a second move of a node replaces the first,
and a move to an infinite place is refused. -/
theorem moves_independent_joined :
    ∃ (calls : List (Call Float32 Float)) (p q : Point),
      let s := run .behind .standard 1 calls
      s.nodeOrder = [⟨"a"⟩, ⟨"b"⟩] ∧
        s.toGraph.connections.map (fun c ↦ (c.source, c.target, c.isDeleting)) =
          [(⟨"a"⟩, ⟨"b"⟩, true), (⟨"b"⟩, ⟨"a"⟩, false), (⟨"a"⟩, ⟨"b"⟩, false)] ∧
        ((⟨"a"⟩ : NodeId) ≠ ⟨"b"⟩ ∧
          (s.move ⟨"a"⟩ p).move ⟨"b"⟩ q = (s.move ⟨"b"⟩ q).move ⟨"a"⟩ p) ∧
        (q.isFinite = true ∧ (s.move ⟨"a"⟩ p).move ⟨"a"⟩ q = s.move ⟨"a"⟩ q) ∧
        (∃ n, s.Moves (s.move ⟨"a"⟩ p) n ∧ n.id = ⟨"a"⟩ ∧ n.origin = p) ∧
        s.move ⟨"a"⟩ ⟨1 / 0, 0⟩ = s := by
  let layer : Layer := ⟨"", "", "", "", .ofList [], "", ""⟩
  let connect (source target : String) : Call Float32 Float :=
    .addConnection ⟨source⟩ ⟨target⟩ ⟨0, 0⟩ ⟨0, 0⟩
  let calls : List (Call Float32 Float) :=
    [.insertNode ⟨⟨"a"⟩, layer, ⟨0, 0⟩, 140, 86⟩, .insertNode ⟨⟨"b"⟩, layer, ⟨0, 200⟩, 140, 86⟩,
      connect "a" "b", connect "b" "a", .deleteConnection ⟨"conn-1"⟩, connect "a" "b"]
  let p : Point := ⟨10, 20⟩
  let q : Point := ⟨300, 40⟩
  have hrun := represents_run (C := Float32) (R := Float) .behind .standard 1 calls
  have horder : (run .behind .standard 1 calls).nodeOrder = [⟨"a"⟩, ⟨"b"⟩] := by
    rw [hrun.nodeOrder]
    decide +kernel
  have hne : (⟨"a"⟩ : NodeId) ≠ ⟨"b"⟩ := by decide
  have hp : p.isFinite = true := by decide +kernel
  have hq : q.isFinite = true := by decide +kernel
  have hinfinite : (⟨1 / 0, 0⟩ : Point).isFinite = false := by decide +kernel
  obtain ⟨hcomm, hlast, hframe⟩ := moves_independent .behind .standard 1 calls
  refine ⟨calls, p, q, horder, ?_, ⟨hne, hcomm _ _ hne p q⟩, ⟨hq, hlast _ p q hq⟩, ?_, ?_⟩
  · rw [hrun.toGraph_eq]
    decide +kernel
  · obtain ⟨-, -, hrefused⟩ | ⟨n, hnode, -, -, hmoves⟩ := hframe ⟨"a"⟩ p
    · simp [hp, horder] at hrefused
    · refine ⟨_, hmoves, ?_, rfl⟩
      rw [hrun.map_node?] at hnode
      exact (Graph.id_of_node? hnode : n.id = _)
  · obtain ⟨-, hsame, -⟩ | ⟨_, _, hfinite, _⟩ := hframe ⟨"a"⟩ ⟨1 / 0, 0⟩
    · exact hsame
    · simp [hinfinite] at hfinite

end Store

end LayerCanvas
