import LayerCanvas.Proofs.Graph.Change
import LayerCanvas.Proofs.Graph.Tick

/-!
The invariant of the graph. Names are given once, connections join nodes that are there, nodes that
wait are there, and tweens belong to connections that are there. Every call keeps this, so a tick of
a graph that calls lead to always has one result, whatever the order of the samples.
-/

set_option autoImplicit false
set_option relaxedAutoImplicit false

namespace LayerCanvas.Graph

variable {C R : Type}

/-- What holds of every graph that calls lead to. -/
structure WellFormed (g : Graph C R) : Prop where
  nodeIds_nodup : g.nodeIds.Nodup
  connectionIds_nodup : g.connectionIds.Nodup
  ends_mem : ∀ link ∈ g.links, link.2.1 ∈ g.nodeIds ∧ link.2.2 ∈ g.nodeIds
  leaving_nodup : g.leaving.Nodup
  leaving_mem : ∀ id ∈ g.leaving, id ∈ g.nodeIds
  tweens_nodup : g.animator.ids.Nodup
  tweens_mem : ∀ id ∈ g.animator.ids, id ∈ g.connectionIds

namespace WellFormed

variable {g g' : Graph C R}

theorem source_mem (h : g.WellFormed) {c : Connection C} (hc : c ∈ g.connections) :
    c.source ∈ g.nodeIds := (h.ends_mem c.link (mem_links hc)).1

theorem target_mem (h : g.WellFormed) {c : Connection C} (hc : c ∈ g.connections) :
    c.target ∈ g.nodeIds := (h.ends_mem c.link (mem_links hc)).2

theorem tickable (h : g.WellFormed) : g.Tickable := ⟨h.tweens_nodup, h.tweens_mem, h.leaving_mem⟩

theorem empty (config : EditorConfig C R) (serial : Nat) : (empty config serial).WellFormed := by
  constructor <;> simp [Graph.empty, nodeIds, connectionIds, links, Animator.ids]

/-! ### Changes -/

theorem of_alike (h : g.WellFormed) (hlike : Alike g g') : g'.WellFormed := by
  constructor
  · exact hlike.nodeIds.nodup_iff.mpr h.nodeIds_nodup
  · rw [hlike.connectionIds]
    exact h.connectionIds_nodup
  · simpa only [hlike.links, hlike.nodeIds.mem_iff] using h.ends_mem
  · rw [hlike.leaving]
    exact h.leaving_nodup
  · simpa only [hlike.leaving, hlike.nodeIds.mem_iff] using h.leaving_mem
  · rw [hlike.animator]
    exact h.tweens_nodup
  · rw [hlike.animator, hlike.connectionIds]
    exact h.tweens_mem

theorem place (h : g.WellFormed) {n : Node C R} (hn : n.id ∉ g.nodeIds) (serial : Nat) :
    WellFormed { g with nodes := g.nodes ++ [n], serial } := by
  have hids : nodeIds { g with nodes := g.nodes ++ [n], serial } = g.nodeIds ++ [n.id] :=
    List.map_append
  constructor
  · rw [hids]
    exact h.nodeIds_nodup.append (List.nodup_singleton n.id) (by simpa using hn)
  · exact h.connectionIds_nodup
  · intro link hlink
    rw [hids]
    exact (h.ends_mem link hlink).imp (List.mem_append_left _) (List.mem_append_left _)
  · exact h.leaving_nodup
  · intro id hid
    rw [hids]
    exact List.mem_append_left _ (h.leaving_mem id hid)
  · exact h.tweens_nodup
  · exact h.tweens_mem

/-- A connection with a new name may join nodes that are there, and may have a tween. -/
theorem join (h : g.WellFormed) {c : Connection C} (hid : c.id ∉ g.connectionIds)
    (hsource : c.source ∈ g.nodeIds) (htarget : c.target ∈ g.nodeIds) {animator : Animator R}
    (hnodup : animator.ids.Nodup) (hmem : ∀ id ∈ animator.ids, id = c.id ∨ id ∈ g.connectionIds)
    (serial : Nat) :
    WellFormed { g with connections := g.connections ++ [c], animator, serial } := by
  constructor
  · exact h.nodeIds_nodup
  · rw [connectionIds, List.map_append]
    exact h.connectionIds_nodup.append (List.nodup_singleton c.id) (by simpa using hid)
  · intro link hlink
    rw [links, List.map_append, List.mem_append] at hlink
    rcases hlink with hold | hnew
    · exact h.ends_mem link hold
    · rw [List.mem_singleton.mp hnew]
      exact ⟨hsource, htarget⟩
  · exact h.leaving_nodup
  · exact h.leaving_mem
  · exact hnodup
  · intro id hidmem
    rw [connectionIds, List.map_append, List.mem_append]
    rcases hmem id hidmem with rfl | hold
    · exact Or.inr (List.mem_singleton_self _)
    · exact Or.inl hold

theorem connect [Scalar C] (h : g.WellFormed) {id : ConnectionId} {source target : NodeId}
    (hid : id ∉ g.connectionIds) (hsource : source ∈ g.nodeIds) (htarget : target ∈ g.nodeIds)
    (start stop : Point C) (serial : Nat) :
    WellFormed
      { g with
        connections := g.connections ++ [.new id source target start stop]
        animator := g.animator.start id .creation
        serial } := by
  refine h.join hid hsource htarget (Animator.nodup_start h.tweens_nodup id .creation) ?_ serial
  intro other hother
  exact (Animator.mem_ids_start.mp hother).imp_right (h.tweens_mem other)

theorem deleteConnection (h : g.WellFormed) (id : ConnectionId) :
    (g.deleteConnection id).WellFormed := by
  have hlinks := g.links_deleteConnection id
  have hids : (g.deleteConnection id).connectionIds = g.connectionIds := by
    rw [← map_fst_links, hlinks, map_fst_links]
  obtain ⟨-, hnodes, hleaving, -⟩ := g.deleteConnection_frame id
  have hnodeIds : (g.deleteConnection id).nodeIds = g.nodeIds := by rw [nodeIds, hnodes, nodeIds]
  constructor
  · rw [hnodeIds]
    exact h.nodeIds_nodup
  · rw [hids]
    exact h.connectionIds_nodup
  · rw [hlinks, hnodeIds]
    exact h.ends_mem
  · rw [hleaving]
    exact h.leaving_nodup
  · rw [hleaving, hnodeIds]
    exact h.leaving_mem
  · rcases g.deleteConnection_eq id with heq | ⟨-, heq⟩ <;> rw [heq]
    · exact h.tweens_nodup
    · exact Animator.nodup_start h.tweens_nodup id .deletion
  · rw [hids]
    rcases g.deleteConnection_eq id with heq | ⟨⟨c, hc, rfl, -⟩, heq⟩ <;> rw [heq]
    · exact h.tweens_mem
    · intro other hother
      rcases Animator.mem_ids_start.mp hother with rfl | hold
      · exact mem_connectionIds hc
      · exact h.tweens_mem other hold

theorem fadeAll (h : g.WellFormed) (ids : List ConnectionId) : (g.fadeAll ids).WellFormed := by
  induction ids generalizing g with
  | nil => exact h
  | cons id rest ih => exact ih (h.deleteConnection id)

/-- Nodes at which nothing is attached may go. -/
theorem filter_nodes (h : g.WellFormed) {p : NodeId → Bool} {leaving : List NodeId}
    (hends : ∀ c ∈ g.connections, p c.source = true ∧ p c.target = true)
    (hleaving : leaving.Sublist g.leaving) (hkept : ∀ id ∈ leaving, p id = true) :
    WellFormed { g with nodes := g.nodes.filter fun n ↦ p n.id, leaving } := by
  have hids : nodeIds { g with nodes := g.nodes.filter fun n ↦ p n.id, leaving } =
      g.nodeIds.filter p := by
    simp only [nodeIds, List.filter_map]
    rfl
  constructor
  · rw [hids]
    exact h.nodeIds_nodup.filter p
  · exact h.connectionIds_nodup
  · intro link hlink
    obtain ⟨c, hc, rfl⟩ := List.mem_map.mp hlink
    rw [hids, List.mem_filter, List.mem_filter]
    exact ⟨⟨h.source_mem hc, (hends c hc).1⟩, ⟨h.target_mem hc, (hends c hc).2⟩⟩
  · exact h.leaving_nodup.sublist hleaving
  · intro id hid
    rw [hids, List.mem_filter]
    exact ⟨h.leaving_mem id (hleaving.subset hid), hkept id hid⟩
  · exact h.tweens_nodup
  · exact h.tweens_mem

theorem await (h : g.WellFormed) {id : NodeId} (hmem : id ∈ g.nodeIds) (hstays : id ∉ g.leaving) :
    WellFormed { g.fadeAt id with leaving := g.leaving ++ [id] } := by
  have hfaded : (g.fadeAt id).WellFormed := h.fadeAll _
  obtain ⟨-, hnodes, hleaving, -⟩ := g.fadeAll_frame ((g.touching id .both).map Connection.id)
  have hnodeIds : (g.fadeAt id).nodeIds = g.nodeIds := by rw [nodeIds, fadeAt, hnodes, nodeIds]
  constructor
  · exact hfaded.nodeIds_nodup
  · exact hfaded.connectionIds_nodup
  · exact hfaded.ends_mem
  · exact h.leaving_nodup.append (List.nodup_singleton id) (by simpa using hstays)
  · intro other hother
    show other ∈ (g.fadeAt id).nodeIds
    rw [hnodeIds]
    rcases List.mem_append.mp hother with hold | hnew
    · exact h.leaving_mem other hold
    · rw [List.mem_singleton.mp hnew]
      exact hmem
  · exact hfaded.tweens_nodup
  · exact hfaded.tweens_mem

theorem change [Scalar C] (h : g.WellFormed) (hstep : Change g g') : g'.WellFormed := by
  cases hstep with
  | alike hlike => exact h.of_alike hlike
  | place n serial hn => exact h.place hn serial
  | connect id source target start stop serial hid hok =>
    exact h.connect hid hok.source_mem hok.target_mem start stop serial
  | fade id => exact h.deleteConnection id
  | remove id hmem hstays huntouched =>
    refine h.filter_nodes (p := (· != id)) (fun c hc ↦ ?_) (List.Sublist.refl _)
      fun other hother ↦ ?_
    · have hc' : c.touches id = false := by
        by_contra htouch
        have htouched := isTouched_iff.mpr ⟨c, hc, by simpa using htouch⟩
        rw [huntouched] at htouched
        cases htouched
      simpa [Connection.touches] using hc'
    · simpa using fun heq : other = id ↦ hstays (heq ▸ hother)
  | await id hmem hstays htouched => exact h.await hmem hstays

theorem insertConnection [Scalar C] (h : g.WellFormed) {c : Connection C}
    (hok : g.insertConnection c = .ok g') : g'.WellFormed := by
  obtain ⟨hid, -, -, source, target, hsource, htarget, rfl⟩ := insertConnection_eq_ok_iff.mp hok
  have hmem {id : NodeId} {n : Node C R} (hn : g.node? id = some n) : id ∈ g.nodeIds := by
    by_contra hnot
    rw [node?_eq_none_iff.mpr hnot] at hn
    cases hn
  exact h.join (c := (c.anchored source target).settled) hid (hmem hsource) (hmem htarget)
    h.tweens_nodup (fun id hidmem ↦ Or.inr (h.tweens_mem id hidmem)) g.serial

/-! ### Loads and ticks -/

theorem load [Scalar C] (g : Graph C R) {s : Snapshot C R} (hok : g.load s = .ok g') :
    g'.WellFormed := by
  refine load_induction (empty g.config g.serial) (fun g g' n h hok ↦ ?_)
    (fun _ _ _ h hok ↦ h.insertConnection hok) hok
  obtain ⟨hn, -, rfl⟩ := insertNode_eq_ok_iff.mp hok
  exact h.place hn g.serial

variable [Scalar R] [Precision C R]

theorem ticked (h : g.WellFormed) (now : R) : (g.ticked now).WellFormed := by
  have hlinks : (g.ticked now).links.Sublist g.links := (Thins.ticked g now).links_sublist
  -- The graph between the samples and the nodes that go.
  let absorbed : Graph C R :=
    { g with connections := g.tickedConnections now, animator := (g.ticked now).animator }
  have habsorbed : absorbed.WellFormed := by
    constructor
    · exact h.nodeIds_nodup
    · have hsub := hlinks.map Prod.fst
      rw [map_fst_links, map_fst_links] at hsub
      exact h.connectionIds_nodup.sublist hsub
    · exact fun link hlink ↦ h.ends_mem link (hlinks.subset hlink)
    · exact h.leaving_nodup
    · exact h.leaving_mem
    · show ((g.ticked now).animator).ids.Nodup
      rw [animator_ticked, Animator.ids_keep]
      exact (Animator.nodup_advance h.tweens_nodup now).filter _
    · exact fun id hid ↦ tweens_mem_ticked h.tickable hid
  have hstay : ∀ c ∈ (g.ticked now).connections, ∀ id, c.touches id = true →
      (!(g.released now).contains id) = true := by
    intro c hc id htouch
    have htouched : (g.ticked now).isTouched id = true := isTouched_iff.mpr ⟨c, hc, htouch⟩
    have hnot : id ∉ g.released now := fun hid ↦ by
      rw [(mem_released_iff.mp hid).2] at htouched
      cases htouched
    simpa using hnot
  refine habsorbed.filter_nodes (p := fun id ↦ !(g.released now).contains id) (fun c hc ↦ ?_)
    List.filter_sublist fun id hid ↦ (List.mem_filter.mp hid).2
  exact ⟨hstay c hc c.source (Connection.touches_iff.mpr (Or.inl rfl)),
    hstay c hc c.target (Connection.touches_iff.mpr (Or.inr rfl))⟩

theorem tickIn (h : g.WellFormed) (now : R) (order : SampleOrder C) :
    (g.tickIn now order).1.WellFormed := by
  rw [(tickIn_eq h.tickable now order).1]
  exact h.ticked now

theorem apply [Scalar C] (h : g.WellFormed) (call : Call C R) : (g.apply call).WellFormed :=
  apply_invariant (fun _ _ h hstep ↦ h.change hstep) (fun _ now order h ↦ h.tickIn now order)
    (fun g _ _ _ hok ↦ load g hok) g call h

theorem applyAll [Scalar C] (h : g.WellFormed) (calls : List (Call C R)) :
    (g.applyAll calls).WellFormed :=
  applyAll_induction (Q := fun _ ↦ True) (fun _ call _ h ↦ h.apply call) calls
    (fun _ _ ↦ trivial) g h

end WellFormed

variable [Scalar C] [Scalar R] [Precision C R]

theorem wellFormed_run (config : EditorConfig C R) (serial : Nat) (calls : List (Call C R)) :
    (run config serial calls).WellFormed :=
  (WellFormed.empty config serial).applyAll calls

end LayerCanvas.Graph
