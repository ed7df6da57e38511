import LayerCanvas.Proofs.Graph.Hit
import LayerCanvas.Proofs.Graph.WellFormed
import LayerCanvas.Proofs.Session.Change

/-!
What a session has an eye on. The selected node and the connection under the pointer are names that
the session took down from the graph. A node can be deleted by its name, by a key or with all
others, a connection also with a node at either end of it, and both go in the end at some tick; and
the pointer is on a graph that still shows what is on its way out. After every run the selected node
is there to stay and the connection under the pointer is live.
-/

set_option autoImplicit false
set_option relaxedAutoImplicit false

namespace LayerCanvas

namespace Graph

/-! ### Nodes that are there to stay, and live connections -/

section Graph

variable {C R : Type} {g g' : Graph C R}

/-- Whether a node is there to stay. -/
def Stays (g : Graph C R) (id : NodeId) : Prop := id ∈ g.nodeIds ∧ id ∉ g.leaving

/-- Whether a connection is there and does not fade. -/
def HasLive (g : Graph C R) (id : ConnectionId) : Prop :=
  ∃ c ∈ g.connections, c.id = id ∧ c.isDeleting = false

theorem stays_iff {id : NodeId} :
    g.Stays id ↔ g.contains id = true ∧ g.isLeaving id = false := by
  rw [Stays, contains_iff, ← isLeaving_iff, Bool.not_eq_true]

theorem hasLive_iff (h : g.connectionIds.Nodup) {id : ConnectionId} :
    g.HasLive id ↔ ∃ c, g.connection? id = some c ∧ c.isLive = true := by
  simp only [connection?_eq_some_iff h, Connection.isLive_iff, HasLive, and_assoc]

/-- Deleting a node sends off that node alone. -/
theorem Stays.deleteNode? {id other : NodeId} (h : g.Stays id)
    (hdel : g.deleteNode? other = some g') (hne : id ≠ other) : g'.Stays id := by
  obtain ⟨-, -, ⟨-, rfl⟩ | ⟨-, rfl⟩⟩ := deleteNode?_eq_some_iff.mp hdel
  · have hnodes : (g.fadeAt other).nodes = g.nodes := (g.fadeAll_frame _).2.1
    exact ⟨by simpa [nodeIds, hnodes] using h.1, by simp [h.2, hne]⟩
  · obtain ⟨n, hn, rfl⟩ := List.mem_map.mp h.1
    exact ⟨List.mem_map_of_mem (List.mem_filter.mpr ⟨hn, by simpa using hne⟩), h.2⟩

theorem Stays.deleteConnection {id : NodeId} (h : g.Stays id) (other : ConnectionId) :
    (g.deleteConnection other).Stays id := by
  obtain ⟨-, hnodes, hleaving, -⟩ := g.deleteConnection_frame other
  rw [Stays, nodeIds, hnodes, hleaving]
  exact h

/-- Letting a connection fade takes the life of that connection alone. -/
theorem HasLive.deleteConnection {id other : ConnectionId} (hids : g.connectionIds.Nodup)
    (h : g.HasLive id) (hne : id ≠ other) : (g.deleteConnection other).HasLive id := by
  obtain ⟨c, hc, rfl, hlive⟩ := h
  refine ⟨c, ?_, rfl, hlive⟩
  rw [connections_deleteConnection hids]
  exact List.mem_map.mpr ⟨c, hc, if_neg hne⟩

theorem HasLive.of_states {id : ConnectionId} (h : g.HasLive id)
    (hstates : g'.connections.map Connection.state = g.connections.map Connection.state) :
    g'.HasLive id := by
  obtain ⟨c, hc, rfl, hlive⟩ := h
  obtain ⟨d, hd, hsame⟩ := List.mem_map.mp (hstates ▸ List.mem_map_of_mem hc)
  have hid : d.id = c.id := congrArg (fun state ↦ state.1.1) hsame
  have hdeleting : d.isDeleting = c.isDeleting := congrArg (fun state ↦ state.2.2.1) hsame
  exact ⟨d, hd, hid, hdeleting.trans hlive⟩

variable [Scalar R] [Precision C R] {now : R} {order : SampleOrder C}

/-- A tick removes leaving nodes only. -/
theorem Stays.tickIn {id : NodeId} (h : g.Stays id) (htick : g.Tickable) :
    (g.tickIn now order).1.Stays id := by
  have hreleased : id ∉ g.released now := fun hid ↦ h.2 (mem_released_iff.mp hid).1
  obtain ⟨n, hn, rfl⟩ := List.mem_map.mp h.1
  rw [(tickIn_eq htick now order).1]
  refine ⟨List.mem_map_of_mem (List.mem_filter.mpr ⟨hn, by simpa using hreleased⟩), ?_⟩
  exact fun hleaving ↦ h.2 (List.mem_of_mem_filter hleaving)

/-- A tick takes no life: a connection is live after it unless the tick purges it. -/
theorem HasLive.tickIn {id : ConnectionId} (h : g.HasLive id) (htick : g.Tickable)
    (hkept : id ∉ (g.tickIn now order).2.purged) : (g.tickIn now order).1.HasLive id := by
  obtain ⟨c, hc, rfl, hlive⟩ := h
  rw [(tickIn_eq htick now order).1]
  cases hafter : c.after? g.animator now with
  | none => exact absurd ((mem_purged_iff htick).mpr ⟨c, hc, rfl, hafter⟩) hkept
  | some d =>
    obtain ⟨hlink, hdeleting, -⟩ := Connection.after?_frame hafter
    exact ⟨d, mem_connections_ticked_iff.mpr ⟨c, hc, hafter⟩, congrArg Prod.fst hlink,
      hdeleting.trans hlive⟩

end Graph

/-- A delete target belongs to a live connection. -/
theorem hasLive_of_hit {g : Graph} {config : EditorConfig} {hovered : Option ConnectionId}
    {p : Point} {id : ConnectionId} (h : g.hit config hovered p = .deleteTarget id) :
    g.HasLive id := by
  cases hit_eq_iff.mp h with
  | deleteTarget _ _ hlast => exact ⟨_, hlast.mem, rfl, Connection.isLive_iff.mp hlast.1.1⟩

end Graph

namespace Session

variable {s s' : Session}

/-- What is selected is there to stay, and what is pointed at is live. -/
structure Attentive (s : Session) : Prop where
  wellFormed : s.graph.WellFormed
  selected : ∀ id, s.selected = some id → s.graph.Stays id
  hovered : ∀ id, s.hovered = some id → s.graph.HasLive id

namespace Attentive

/-- A session that has an eye on nothing. -/
theorem of_none (hwell : s.graph.WellFormed) (hselected : s.selected = none)
    (hhovered : s.hovered = none) : s.Attentive := by
  refine ⟨hwell, fun id hid ↦ ?_, fun id hid ↦ ?_⟩
  · rw [hselected] at hid
    cases hid
  · rw [hhovered] at hid
    cases hid

theorem new (config : EditorConfig) : (new config).Attentive := of_none (.empty config 1) rfl rfl

/-- Asking for a frame leaves the attention where it is. -/
theorem schedule (h : s.Attentive) : s.schedule.Attentive := by
  rw [schedule_eq]
  exact ⟨h.wellFormed, h.selected, h.hovered⟩

theorem minor (h : s.Attentive) (hstep : Minor s s') : s'.Attentive := by
  have hwell : s'.graph.WellFormed := hstep.wellFormed h.wellFormed
  cases hstep with
  | look hsame =>
    simp only [content, Prod.mk.injEq] at hsame
    obtain ⟨hgraph, hselected, hhovered, -⟩ := hsame
    refine ⟨hwell, ?_, ?_⟩
    · rw [hgraph, hselected]
      exact h.selected
    · rw [hgraph, hhovered]
      exact h.hovered
  | select chosen =>
    refine ⟨hwell, fun id hid ↦ ?_, h.hovered⟩
    obtain ⟨-, hchosen⟩ := Option.filter_eq_some_iff.mp hid
    rw [Bool.and_eq_true, Bool.not_eq_true'] at hchosen
    exact Graph.stays_iff.mpr hchosen
  | hover p =>
    refine ⟨hwell, h.selected, fun id hid ↦ ?_⟩
    unfold hoverAt at hid
    split at hid
    · cases hid
      exact Graph.hasLive_of_hit ‹_›
    · cases hid
  | edit call hedit =>
    obtain ⟨hnodes, hstates, hleaving, -⟩ := s.graph.edit_frame hedit
    refine ⟨hwell, fun id hid ↦ ?_, fun id hid ↦ (h.hovered id hid).of_states hstates⟩
    obtain ⟨hmem, hstays⟩ := h.selected id hid
    exact ⟨hnodes hmem, fun hgone ↦ hstays (hleaving ▸ hgone)⟩

theorem major (h : s.Attentive) (hstep : Major s s') : s'.Attentive := by
  have hwell : s'.graph.WellFormed := hstep.wellFormed h.wellFormed
  cases hstep with
  | connect source target start stop hmade =>
    obtain ⟨-, hmade⟩ := Graph.addConnection?_eq_some_iff.mp hmade
    cases hmade
    rw [graph_schedule] at hwell
    refine schedule ⟨hwell, h.selected, fun id hid ↦ ?_⟩
    obtain ⟨c, hc, hlive⟩ := h.hovered id hid
    exact ⟨c, List.mem_append_left _ hc, hlive⟩
  | @deleteConnection deleted graph hdel =>
    have hgraph : graph = s.graph.deleteConnection deleted := by
      rw [Graph.deleteConnection, hdel, Option.getD_some]
    subst hgraph
    rw [graph_schedule] at hwell
    refine schedule ⟨hwell, fun id hid ↦ (h.selected id hid).deleteConnection deleted, ?_⟩
    -- A connection that is deleted is pointed at no longer.
    intro id hid
    dsimp only at hid
    split_ifs at hid with hsame
    have hne : id ≠ deleted := fun heq ↦ hsame (heq ▸ hid)
    exact (h.hovered id hid).deleteConnection h.wellFormed.connectionIds_nodup hne
  | deleteNode deleted hdel =>
    rw [graph_schedule] at hwell
    refine schedule ⟨hwell, fun id hid ↦ ?_, fun id hid ↦ ?_⟩
    · dsimp only at hid
      split_ifs at hid with hsame
      exact (h.selected id hid).deleteNode? hdel fun heq ↦ hsame (heq ▸ hid)
    -- The connections of the node fade, so whether one is pointed at is looked up afterwards.
    · obtain ⟨-, hlive⟩ := Option.filter_eq_some_iff.mp hid
      rw [Option.any_eq_true] at hlive
      exact (Graph.hasLive_iff hwell.connectionIds_nodup).mpr hlive
  | clear =>
    rw [Session.clear, graph_schedule] at hwell
    exact schedule (of_none hwell rfl rfl)
  | tick now order =>
    refine ⟨hwell, fun id hid ↦ ?_, fun id hid ↦ ?_⟩
    · obtain ⟨hid, -⟩ := Option.filter_eq_some_iff.mp hid
      exact (h.selected id hid).tickIn h.wellFormed.tickable
    · obtain ⟨hid, hkept⟩ := Option.filter_eq_some_iff.mp hid
      have hpurged : (!(s.graph.tickIn now order).2.purged.contains id) = true := hkept
      exact (h.hovered id hid).tickIn h.wellFormed.tickable (by simpa using hpurged)
  | load text hload => exact of_none hwell rfl rfl

theorem serve (h : s.Attentive) (request : Request) : (s.serve request).Attentive :=
  (s.changes_serve request).keep (fun _ _ ↦ minor) (fun _ _ ↦ major) h

end Attentive

/-- After every run of a session the node that is selected is in the graph and does not wait to go,
and the connection under the pointer is in the graph and live. -/
theorem attention_run (config : EditorConfig) (requests : List Request) :
    (∀ id, (run config requests).selected = some id →
      (run config requests).graph.contains id = true ∧
        (run config requests).graph.isLeaving id = false) ∧
    (∀ id, (run config requests).hovered = some id →
      ∃ c, (run config requests).graph.connection? id = some c ∧ c.isLive = true) := by
  have h : (run config requests).Attentive :=
    run_induction (.new config) (fun _ request h ↦ h.serve request) requests
  constructor
  · intro id hid
    exact Graph.stays_iff.mp (h.selected id hid)
  · intro id hid
    exact (Graph.hasLive_iff h.wellFormed.connectionIds_nodup).mp (h.hovered id hid)

/-- Two nodes are dropped one below the other and connected. When the connection has appeared, the
pointer rests on the delete target half way, and the upper node is selected. -/
theorem attention_run_halfway :
    ∃ requests, (run .standard requests).selected = some ⟨"Input-1"⟩ ∧
      (run .standard requests).hovered = some ⟨"conn-3"⟩ ∧
        (run .standard requests).graph.isLeaving ⟨"Input-1"⟩ = false ∧
          ∃ c, (run .standard requests).graph.connection? ⟨"conn-3"⟩ = some c ∧
            c.isLive = true := by
  let payload : String := "\x7b\"type\":\"Input\",\"label\":\"\"\x7d"
  let requests : List Request :=
    [.drop payload ⟨0, 0⟩, .drop payload ⟨0, 400⟩, .connect ⟨"Input-1"⟩ ⟨"Input-2"⟩,
      .tick 0 (.listed _), .tick 1000 (.listed _), .input (.pointerMove ⟨0, 200⟩ {}),
      .select (some ⟨"Input-1"⟩)]
  have hselected : (run .standard requests).selected = some ⟨"Input-1"⟩ := by decide +kernel
  have hhovered : (run .standard requests).hovered = some ⟨"conn-3"⟩ := by decide +kernel
  obtain ⟨hnode, hconnection⟩ := attention_run .standard requests
  exact ⟨requests, hselected, hhovered, (hnode _ hselected).2, hconnection _ hhovered⟩

end Session

end LayerCanvas
