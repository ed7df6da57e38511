import LayerCanvas.Proofs.Graph.WellFormed
import LayerCanvas.Proofs.Snapshot.Load

/-!
The ends of connections. They are copies of the anchors of two nodes, and the anchors of a node
depend on where it lies and how large it is. The copies are written when two nodes are connected,
when a node moves and when a document is loaded. Everything else keeps the ends of the connections
that it leaves, and keeps the nodes at them where they are.
-/

set_option autoImplicit false
set_option relaxedAutoImplicit false

namespace LayerCanvas

variable {C R : Type}

namespace Node

/-- Which node it is, where it lies and how large it is. -/
def place (n : Node C R) : NodeId × Point C × C × C := (n.id, n.origin, n.width, n.height)

variable {n m : Node C R}

theorem id_of_place (h : m.place = n.place) : m.id = n.id := congrArg Prod.fst h

variable [Scalar C]

theorem inputAnchor_of_place (h : m.place = n.place) : m.inputAnchor = n.inputAnchor := by
  simp only [place, Prod.mk.injEq] at h
  obtain ⟨-, horigin, hwidth, -⟩ := h
  rw [inputAnchor, inputAnchor, horigin, hwidth]

theorem outputAnchor_of_place (h : m.place = n.place) : m.outputAnchor = n.outputAnchor := by
  simp only [place, Prod.mk.injEq] at h
  obtain ⟨-, horigin, hwidth, hheight⟩ := h
  rw [outputAnchor, outputAnchor, horigin, hwidth, hheight]

end Node

namespace Graph

variable [Scalar C]

/-- The ends of every connection are at the anchors of its nodes. -/
def Anchored (g : Graph C R) : Prop := ∀ c ∈ g.connections, c.AnchoredIn g.nodes

theorem anchored_iff {g : Graph C R} (h : g.nodeIds.Nodup) :
    g.Anchored ↔ ∀ c ∈ g.connections, ∃ source target,
      g.node? c.source = some source ∧ g.node? c.target = some target ∧
        c.start = source.outputAnchor ∧ c.stop = target.inputAnchor := by
  simp only [Anchored, Connection.AnchoredIn, node?_eq_some_iff h]
  grind

namespace Anchored

variable {g g' : Graph C R}

/-- The ends stay at the anchors while connections keep what they join and their ends, and the nodes
at them keep their places. -/
theorem frame (h : g.Anchored)
    (hconnections : ∀ d ∈ g'.connections, ∃ c ∈ g.connections, d.outline = c.outline)
    (hnodes : ∀ n ∈ g.nodes, g'.isTouched n.id = true → ∃ m ∈ g'.nodes, m.place = n.place) :
    g'.Anchored := by
  intro d hd
  obtain ⟨c, hc, houtline⟩ := hconnections d hd
  simp only [Connection.outline, Connection.link, Prod.mk.injEq] at houtline
  obtain ⟨⟨-, hsource, htarget⟩, hstart, hstop⟩ := houtline
  obtain ⟨source, hsmem, target, htmem, hsid, htid, hcstart, hcstop⟩ := h c hc
  have hat (id : NodeId) (hid : d.source = id ∨ d.target = id) : g'.isTouched id = true :=
    isTouched_iff.mpr ⟨d, hd, Connection.touches_iff.mpr hid⟩
  obtain ⟨source', hsmem', hs⟩ := hnodes source hsmem (hat _ (Or.inl (hsource.trans hsid.symm)))
  obtain ⟨target', htmem', ht⟩ := hnodes target htmem (hat _ (Or.inr (htarget.trans htid.symm)))
  refine ⟨source', hsmem', target', htmem', ?_, ?_, ?_, ?_⟩
  · rw [Node.id_of_place hs, hsid, hsource]
  · rw [Node.id_of_place ht, htid, htarget]
  · rw [hstart, hcstart, Node.outputAnchor_of_place hs]
  · rw [hstop, hcstop, Node.inputAnchor_of_place ht]

/-- No connection changes and no node goes or changes its place. -/
theorem of_places (h : g.Anchored) (hconnections : g'.connections = g.connections)
    (hnodes : g.nodes.map Node.place ⊆ g'.nodes.map Node.place) : g'.Anchored := by
  refine h.frame (fun d hd ↦ ⟨d, hconnections ▸ hd, rfl⟩) fun n hn _ ↦ ?_
  exact List.mem_map.mp (hnodes (List.mem_map_of_mem hn))

theorem empty (config : EditorConfig C R) (serial : Nat) : (empty config serial).Anchored :=
  fun _ hc ↦ absurd hc List.not_mem_nil

/-! ### Edits of nodes -/

theorem moveNode (h : g.Anchored) {id : NodeId} {origin : Point C}
    (hmoved : g.moveNode? id origin = some g') (hids : g.nodeIds.Nodup) : g'.Anchored := by
  obtain ⟨-, n, hn, rfl⟩ := moveNode?_eq_some_iff.mp hmoved
  obtain ⟨hnmem, rfl⟩ := (node?_eq_some_iff hids).mp hn
  -- Where a node lies after the move.
  let put (m : Node C R) : Node C R := if m.id = n.id then { m with origin } else m
  have hput (m : Node C R) : (put m).id = m.id := by
    simp only [put]
    split_ifs <;> rfl
  have hsame (m : Node C R) (hm : m ∈ g.nodes) (hid : m.id = n.id) : put m = { n with origin } := by
    rw [List.inj_on_of_nodup_map hids hm hnmem hid]
    exact if_pos rfl
  have hother (m : Node C R) (hid : m.id ≠ n.id) : put m = m := if_neg hid
  intro d hd
  obtain ⟨c, hc, rfl⟩ := List.mem_map.mp hd
  obtain ⟨source, hsmem, target, htmem, hsid, htid, hstart, hstop⟩ := h c hc
  refine ⟨put source, List.mem_map_of_mem hsmem, put target, List.mem_map_of_mem htmem,
    (hput source).trans hsid, (hput target).trans htid, ?_, ?_⟩ <;> dsimp only [Connection.follow]
  · by_cases hid : c.source = n.id
    · rw [hsame source hsmem (hsid.trans hid), if_pos hid]
    · rw [hother source (hsid ▸ hid), if_neg hid, hstart]
  · by_cases hid : c.target = n.id
    · rw [hsame target htmem (htid.trans hid), if_pos hid]
    · rw [hother target (htid ▸ hid), if_neg hid, hstop]

theorem setParam (h : g.Anchored) {id : NodeId} {name : String} {value : ParamValue R}
    (hset : g.setParam id name value = .ok g') : g'.Anchored := by
  obtain ⟨n, -, old, -, -, rfl⟩ := setParam_eq_ok_iff.mp hset
  refine h.of_places rfl (List.Perm.of_eq ?_).subset
  simp only [updateNode, List.map_map]
  refine List.map_congr_left fun m _ ↦ ?_
  simp only [Function.comp_apply]
  split_ifs <;> rfl

/-! ### Edits of connections -/

theorem connect (h : g.Anchored) {source target : NodeId} {n m : Node C R}
    (hsource : g.node? source = some n) (htarget : g.node? target = some m) (id : ConnectionId)
    (animator : Animator R) (serial : Nat) :
    Anchored
      { g with
        connections := g.connections ++ [.new id source target n.outputAnchor m.inputAnchor]
        animator
        serial } := by
  have hnid : n.id = source := id_of_node? hsource
  have hmid : m.id = target := id_of_node? htarget
  intro c hc
  rcases List.mem_append.mp hc with hc | hc
  · exact h c hc
  · rw [List.mem_singleton.mp hc]
    exact ⟨n, List.mem_of_find?_eq_some hsource, m, List.mem_of_find?_eq_some htarget, hnid, hmid,
      rfl, rfl⟩

theorem deleteConnection (h : g.Anchored) (hids : g.connectionIds.Nodup) (id : ConnectionId) :
    (g.deleteConnection id).Anchored := by
  have hnodes : (g.deleteConnection id).nodes = g.nodes := (g.deleteConnection_frame id).2.1
  refine h.frame (fun d hd ↦ ?_) fun n hn _ ↦ ⟨n, hnodes ▸ hn, rfl⟩
  rw [connections_deleteConnection hids] at hd
  obtain ⟨c, hc, rfl⟩ := List.mem_map.mp hd
  refine ⟨c, hc, ?_⟩
  split_ifs
  · exact c.outline_fade
  · rfl

theorem deleteNode? (h : g.Anchored) (hids : g.connectionIds.Nodup) {id : NodeId}
    (hdel : g.deleteNode? id = some g') : g'.Anchored := by
  obtain ⟨-, -, ⟨-, rfl⟩ | ⟨huntouched, rfl⟩⟩ := deleteNode?_eq_some_iff.mp hdel
  · have hnodes : (g.fadeAt id).nodes = g.nodes := (g.fadeAll_frame _).2.1
    refine h.frame (fun d hd ↦ ?_) fun n hn _ ↦ ⟨n, hnodes ▸ hn, rfl⟩
    have hd : d ∈ (g.fadeAt id).connections := hd
    rw [connections_fadeAt hids] at hd
    obtain ⟨c, hc, rfl⟩ := List.mem_map.mp hd
    refine ⟨c, hc, ?_⟩
    split_ifs
    · exact c.outline_fade
    · rfl
  · -- A node that goes is at no connection.
    refine h.frame (fun d hd ↦ ⟨d, hd, rfl⟩) fun n hn htouched ↦ ⟨n, ?_, rfl⟩
    refine List.mem_filter.mpr ⟨hn, bne_iff_ne.mpr ?_⟩
    rintro rfl
    have htouched : g.isTouched n.id = true := htouched
    rw [huntouched] at htouched
    cases htouched

theorem deleteNode (h : g.Anchored) (hids : g.connectionIds.Nodup) (id : NodeId) :
    (g.deleteNode id).Anchored := by
  unfold Graph.deleteNode
  cases hdel : g.deleteNode? id with
  | none => exact h
  | some g' => exact h.deleteNode? hids hdel

theorem clear (h : g.Anchored) (hwell : g.WellFormed) : g.clear.Anchored := by
  unfold Graph.clear
  generalize g.nodes.map Node.id = ids
  induction ids generalizing g with
  | nil => exact h
  | cons id rest ih =>
    have hnext : (g.deleteNode id).WellFormed :=
      (g.changes_deleteNode id).keep (fun _ _ h hstep ↦ h.change hstep) hwell
    exact ih (h.deleteNode hwell.connectionIds_nodup id) hnext

/-! ### Ticks and loads -/

theorem load {s : Snapshot C R} (hok : g.load s = .ok g') : g'.Anchored := by
  obtain ⟨hsound, rfl⟩ := load_eq_ok_iff.mp hok
  exact (g.shows_ofSnapshot hsound).anchored

variable [Scalar R] [Precision C R]

theorem tickIn (h : g.Anchored) (htick : g.Tickable) (now : R) (order : SampleOrder C) :
    (g.tickIn now order).1.Anchored := by
  rw [(tickIn_eq htick now order).1]
  refine h.frame (fun d hd ↦ ?_) fun n hn htouched ↦ ⟨n, ?_, rfl⟩
  · obtain ⟨c, hc, hafter⟩ := mem_connections_ticked_iff.mp hd
    exact ⟨c, hc, Connection.outline_after? hafter⟩
  · have hstays : n.id ∉ g.released now := fun hid ↦ by
      rw [(mem_released_iff.mp hid).2] at htouched
      cases htouched
    exact List.mem_filter.mpr ⟨hn, by simpa using hstays⟩

/-- The edits of nodes that come from a session. -/
theorem edit (h : g.Anchored) (hids : g.nodeIds.Nodup) {call : Call C R} (hedit : call.IsEdit) :
    (g.apply call).Anchored := by
  cases call with
  | addNode layer origin => exact h.of_places rfl (by simp [apply, addNode])
  | bringToFront id =>
    have hperm := List.filter_append_perm (fun n : Node C R ↦ n.id != id) g.nodes
    have hsubset : g.nodes ⊆ (g.bringToFront id).nodes := by
      simpa [Graph.bringToFront, bne, Bool.not_not] using hperm.symm.subset
    exact h.of_places rfl (List.map_subset Node.place hsubset)
  | moveNode id origin =>
    cases hmoved : g.moveNode? id origin with
    | none => simpa [apply, hmoved] using h
    | some moved => simpa [apply, hmoved] using h.moveNode hmoved hids
  | setParam id name value =>
    cases hset : g.setParam id name value with
    | error fault => simpa [apply, hset, Except.toOption] using h
    | ok changed => simpa [apply, hset, Except.toOption] using h.setParam hset
  | drawNames count => exact h
  | _ => exact hedit.elim

end Anchored

end Graph

end LayerCanvas
