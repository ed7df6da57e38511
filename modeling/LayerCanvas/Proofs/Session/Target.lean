import LayerCanvas.Proofs.Graph.Hit
import LayerCanvas.Proofs.Painting
import LayerCanvas.Proofs.Session.Attention
import LayerCanvas.Proofs.Session.View

/-!
The delete targets of a session. A press deletes a connection only by its target, and a target that
a press meets belongs to a live connection, so the deletion is never refused.

Where the target of the connection under the pointer is drawn, and where a press meets it, are two
circles around one point. The one has the radius of the painters, the other the radius of the
settings, and both grow by the same amount. So they are the same circle as long as the settings give
the radius of the painters; with other settings the target is met beyond its edge, or missed within
it.
-/

set_option autoImplicit false
set_option relaxedAutoImplicit false

namespace LayerCanvas

/-! ### Where a target is drawn -/

namespace Connection

variable {c : Connection} {circle : Circle}

/-- Of the figures of a connection only the delete target is a disc. -/
theorem disc_mem_ofConnection_iff {hovered : Bool} :
    .disc circle ∈ Figure.ofConnection c hovered ↔ c.drawnTarget? hovered = some circle := by
  have harrowhead : .disc circle ∉ (if (Curve.ofConnection c).showsArrowhead then
      [Figure.area (Curve.ofConnection c).arrowhead] else []) := by
    split_ifs <;> simp
  simp [Figure.ofConnection, Figure.ofCurve, harrowhead]

/-- The target of the connection under the pointer is drawn with the radius of the painters. -/
theorem drawnTarget?_hovered :
    c.drawnTarget? true = some circle ↔
      0.5 < c.progress ∧ circle = c.targetCircle (Curve.targetRadius + Curve.targetGrowth) := by
  simp [drawnTarget?, deleteTarget?_eq, eq_comm]

theorem disc_mem_scene_iff (view : Affine) (palette : Palette) (hovered : Bool) :
    (view, .disc circle) ∈ (Scene.ofConnection view palette c hovered).figures ↔
      c.drawnTarget? hovered = some circle := by
  rw [Scene.figures_ofConnection, ← disc_mem_ofConnection_iff]
  simp

theorem disc_mem_drawing_iff (pen : Pen) (theme : Theme) (hovered : Bool) :
    (pen.map, .disc circle) ∈ pen.read (Drawing.ofConnection theme c hovered) ↔
      c.drawnTarget? hovered = some circle := by
  rw [(Drawing.shows_ofConnection theme c hovered).reads, ← disc_mem_ofConnection_iff]
  simp

end Connection

/-! ### Where a target is met -/

namespace Graph

variable {g : Graph} {config : EditorConfig} {hovered : Option ConnectionId} {p : Point}
  {c : Connection}

/-- Away from all dots, all nodes and all other targets, a hit is the target of a connection where
that connection has its target. -/
theorem hit_eq_deleteTarget_iff (hids : g.connectionIds.Nodup) (hc : c ∈ g.connections)
    (hdots : ¬ ∃ n ∈ g.nodes, n.HasDotAt config.pointRadius p)
    (hnodes : ¬ ∃ n ∈ g.nodes, n.contains p = true)
    (hothers : ∀ d ∈ g.connections, d.id ≠ c.id →
      ¬ d.HasTargetAt (config.pressRadius hovered d.id) p) :
    g.hit config hovered p = .deleteTarget c.id ↔
      c.HasTargetAt (config.pressRadius hovered c.id) p := by
  constructor
  · intro hhit
    by_contra hmissed
    have hnone : ¬ ∃ d ∈ g.connections, d.HasTargetAt (config.pressRadius hovered d.id) p := by
      rintro ⟨d, hd, hmet⟩
      by_cases hid : d.id = c.id
      · obtain rfl := List.inj_on_of_nodup_map hids hd hc hid
        exact hmissed hmet
      · exact hothers d hd hid hmet
    rw [hit_eq_canvas_iff.mpr ⟨hdots, hnodes, hnone⟩] at hhit
    cases hhit
  · intro hmet
    obtain ⟨id, hhit⟩ := exists_hit_deleteTarget_iff.mpr ⟨hdots, hnodes, c, hc, hmet⟩
    have htop := hit_eq_iff.mp hhit
    cases htop with
    | @deleteTarget d _ _ hlast =>
      rw [hhit]
      by_contra hne
      exact hothers d hlast.mem (fun hid ↦ hne (by rw [hid])) hlast.1

end Graph

/-! ### Presses that delete -/

/-- A press that deletes a connection does nothing else, and was on the target of the connection. -/
theorem Gesture.press_of_mem_deleteConnection {g : Gesture} {p : Point} {button : Button}
    {modifiers : Modifiers} {hit : Hit} {view : Viewport} {id : ConnectionId}
    (h : .deleteConnection id ∈ (g.press p button modifiers hit view).2) :
    hit = .deleteTarget id ∧
      g.press p button modifiers hit view = (.idle, [.deleteConnection id]) := by
  rcases g.press_cases p button modifiers hit view with hminor | ⟨id', rfl, hactions⟩
  · exact (hminor _ h).elim
  · rw [hactions, List.mem_singleton, Action.deleteConnection.injEq] at h
    subst h
    refine ⟨rfl, ?_⟩
    unfold press at hactions ⊢
    dsimp only at hactions ⊢
    split_ifs at hactions ⊢
    · have hminor := isMinor_beginPan p view (.deleteConnection id)
      rw [hactions] at hminor
      exact (hminor List.mem_cons_self).elim
    · rfl

namespace Session

variable {s : Session}

theorem attentive_run (config : EditorConfig) (requests : List Request) :
    (run config requests).Attentive :=
  run_induction (.new config) (fun _ request h ↦ h.serve request) requests

/-- A live connection can be deleted. -/
theorem exists_deleteConnection? (hids : s.graph.connectionIds.Nodup) {id : ConnectionId}
    (hlive : s.graph.HasLive id) : ∃ s', s.deleteConnection? id = some s' := by
  obtain ⟨c, hc, hdeleting⟩ := (Graph.hasLive_iff hids).mp hlive
  rw [Connection.isLive_iff] at hdeleting
  rw [← Option.isSome_iff_exists]
  simp [deleteConnection?, Graph.deleteConnection?, hc, hdeleting]

/-- A press that deletes a connection finds it live. -/
theorem press_deletes (hids : s.graph.connectionIds.Nodup) {p : Point} {button : Button}
    {modifiers : Modifiers} {id : ConnectionId}
    (h : .deleteConnection id ∈ (s.reply (.pointerDown p button modifiers)).2) :
    (∃ c ∈ s.graph.connections, c.id = id ∧ c.isLive = true) ∧
      ∃ s', ({ s with gesture := .idle } : Session).deleteConnection? id = some s' ∧
        s.serve (.input (.pointerDown p button modifiers)) = s' := by
  obtain ⟨hhit, hpress⟩ := Gesture.press_of_mem_deleteConnection h
  have hlive := Graph.hasLive_of_hit hhit
  obtain ⟨s', hs'⟩ := exists_deleteConnection? (s := { s with gesture := .idle }) hids hlive
  refine ⟨?_, s', hs', ?_⟩
  · obtain ⟨c, hc, hid, hdeleting⟩ := hlive
    exact ⟨c, hc, hid, Connection.isLive_iff.mpr hdeleting⟩
  · have hreply : s.reply (.pointerDown p button modifiers) = (.idle, [.deleteConnection id]) :=
      hpress
    show s.handle (.pointerDown p button modifiers) = s'
    rw [handle_eq, hreply]
    show (({ s with gesture := .idle } : Session).deleteConnection? id).getD _ = s'
    rw [hs', Option.getD_some]

/-- A hit is a dot wherever a dot is near, else a node wherever a node lies, else a delete target
wherever a connection has its target, and else the canvas; and it is the topmost one of its sort.
So a press in a session that asks for the deletion of a connection names a live one, and deleting it
then is all the press does. -/
theorem hit_topmost_and_press_deletes (g : Graph) (settings : EditorConfig)
    (hovered : Option ConnectionId) (p : Point) (config : EditorConfig)
    (requests : List Request) :
    ((∃ d, g.hit settings hovered p = .dot d) ↔
      ∃ n ∈ g.nodes, n.HasDotAt settings.pointRadius p) ∧
    ((∃ id origin, g.hit settings hovered p = .node id origin) ↔
      (¬ ∃ n ∈ g.nodes, n.HasDotAt settings.pointRadius p) ∧
        ∃ n ∈ g.nodes, n.contains p = true) ∧
    ((∃ id, g.hit settings hovered p = .deleteTarget id) ↔
      (¬ ∃ n ∈ g.nodes, n.HasDotAt settings.pointRadius p) ∧
        (¬ ∃ n ∈ g.nodes, n.contains p = true) ∧
          ∃ c ∈ g.connections, c.HasTargetAt (settings.pressRadius hovered c.id) p) ∧
    (g.hit settings hovered p = .canvas ↔
      (¬ ∃ n ∈ g.nodes, n.HasDotAt settings.pointRadius p) ∧
        (¬ ∃ n ∈ g.nodes, n.contains p = true) ∧
          ¬ ∃ c ∈ g.connections, c.HasTargetAt (settings.pressRadius hovered c.id) p) ∧
    (∀ h, g.hit settings hovered p = h ↔ g.Topmost settings hovered p h) ∧
    ∀ (q : Point) (button : Button) (modifiers : Modifiers) (id : ConnectionId),
      .deleteConnection id ∈
          ((run config requests).reply (.pointerDown q button modifiers)).2 →
        (∃ c ∈ (run config requests).graph.connections, c.id = id ∧ c.isLive = true) ∧
          ∃ s', ({ run config requests with gesture := .idle } : Session).deleteConnection? id =
              some s' ∧
            (run config requests).serve (.input (.pointerDown q button modifiers)) = s' :=
  ⟨Graph.exists_hit_dot_iff, Graph.exists_hit_node_iff, Graph.exists_hit_deleteTarget_iff,
    Graph.hit_eq_canvas_iff, fun _ ↦ Graph.hit_eq_iff, fun _ _ _ _ h ↦
      press_deletes (attentive_run config requests).wellFormed.connectionIds_nodup h⟩

/-- Two connected nodes, and the pointer at the middle of the connection. -/
def hoveringRequests : List Request :=
  let payload : String := "\x7b\"type\":\"Input\",\"label\":\"\"\x7d"
  [.drop payload ⟨0, 0⟩, .drop payload ⟨0, 400⟩, .connect ⟨"Input-1"⟩ ⟨"Input-2"⟩,
    .tick 0 (.listed _), .tick 1000 (.listed _), .input (.pointerMove ⟨0, 200⟩ {})]

/-- A press at the middle of a connection asks for its deletion. -/
theorem hit_topmost_and_press_deletes_pressed :
    .deleteConnection ⟨"conn-3"⟩ ∈
        ((run .standard hoveringRequests).reply (.pointerDown ⟨0, 200⟩ .primary {})).2 ∧
      ∃ c ∈ (run .standard hoveringRequests).graph.connections,
        c.id = ⟨"conn-3"⟩ ∧ c.isLive = true := by
  have hmem : .deleteConnection ⟨"conn-3"⟩ ∈
      ((run .standard hoveringRequests).reply (.pointerDown ⟨0, 200⟩ .primary {})).2 := by
    decide +kernel
  have hall := hit_topmost_and_press_deletes (run .standard hoveringRequests).graph .standard none
    ⟨0, 200⟩ .standard hoveringRequests
  exact ⟨hmem, (hall.2.2.2.2.2 ⟨0, 200⟩ .primary {} _ hmem).1⟩

/-! ### Drawn and met -/

/-- The connection under the pointer can be deleted by a press, and has its target there, wherever
nothing else is. -/
theorem hit_hovered_iff (config : EditorConfig) (requests : List Request) {c : Connection}
    (hc : c ∈ (run config requests).graph.connections)
    (hhovered : (run config requests).hovered = some c.id) {p : Point}
    (hdots : ∀ n ∈ (run config requests).graph.nodes, ¬ n.HasDotAt config.pointRadius p)
    (hnodes : ∀ n ∈ (run config requests).graph.nodes, ¬ n.contains p = true)
    (hothers : ∀ d ∈ (run config requests).graph.connections, d.id ≠ c.id →
      ¬ d.HasTargetAt (config.pressRadius (some c.id) d.id) p) :
    (run config requests).graph.hit config (some c.id) p = .deleteTarget c.id ↔
      0.5 < c.progress ∧
        (c.targetCircle (config.deleteRadius + Curve.targetGrowth)).contains p.widen = true := by
  have hattentive := attentive_run config requests
  have hids := hattentive.wellFormed.connectionIds_nodup
  obtain ⟨d, hd, hid, hlive⟩ := hattentive.hovered c.id hhovered
  obtain rfl := List.inj_on_of_nodup_map hids hd hc hid
  rw [Graph.hit_eq_deleteTarget_iff hids hd (by simpa using hdots) (by simpa using hnodes) hothers]
  simp [Connection.HasTargetAt, Connection.isLive_iff, hlive, EditorConfig.pressRadius]

/-- Both painters draw the target of the connection under the pointer as a disc of one radius
around the middle of its curve, once the curve is more than half drawn, and a press meets it, away
from everything else, in a disc around the same point whose radius is that of the settings. So the
target is met where it is drawn exactly at the points on which the two discs agree, and everywhere
if the settings give the radius of the painters. -/
theorem target_met_where_drawn_iff (config : EditorConfig) (requests : List Request)
    {c : Connection} (hc : c ∈ (run config requests).graph.connections)
    (hhovered : (run config requests).hovered = some c.id) {p : Point}
    (hdots : ∀ n ∈ (run config requests).graph.nodes, ¬ n.HasDotAt config.pointRadius p)
    (hnodes : ∀ n ∈ (run config requests).graph.nodes, ¬ n.contains p = true)
    (hothers : ∀ d ∈ (run config requests).graph.connections, d.id ≠ c.id →
      ¬ d.HasTargetAt (config.pressRadius (some c.id) d.id) p) :
    let s := run config requests
    let hovered : Bool := s.overlay.hovered = some c.id
    let drawn := c.targetCircle (Curve.targetRadius + Curve.targetGrowth)
    let met := c.targetCircle (config.deleteRadius + Curve.targetGrowth)
    (∀ view palette circle,
      (view, .disc circle) ∈ (Scene.ofConnection view palette c hovered).figures ↔
        0.5 < c.progress ∧ circle = drawn) ∧
    (∀ (pen : Pen) theme circle,
      (pen.map, .disc circle) ∈ pen.read (Drawing.ofConnection theme c hovered) ↔
        0.5 < c.progress ∧ circle = drawn) ∧
    (s.graph.hit config (some c.id) p = .deleteTarget c.id ↔
      0.5 < c.progress ∧ met.contains p.widen = true) ∧
    ((s.graph.hit config (some c.id) p = .deleteTarget c.id ↔
        0.5 < c.progress ∧ drawn.contains p.widen = true) ↔
      (0.5 < c.progress → met.contains p.widen = drawn.contains p.widen)) ∧
    (config.deleteRadius = Curve.targetRadius →
      (s.graph.hit config (some c.id) p = .deleteTarget c.id ↔
        0.5 < c.progress ∧ drawn.contains p.widen = true)) := by
  have hmet := hit_hovered_iff config requests hc hhovered hdots hnodes hothers
  have hoverlay : decide ((run config requests).overlay.hovered = some c.id) = true :=
    decide_eq_true hhovered
  dsimp only
  rw [hoverlay]
  refine ⟨fun view palette circle ↦ ?_, fun pen theme circle ↦ ?_, hmet, ?_, fun hradius ↦ ?_⟩
  · rw [Connection.disc_mem_scene_iff, Connection.drawnTarget?_hovered]
  · rw [Connection.disc_mem_drawing_iff, Connection.drawnTarget?_hovered]
  · rw [hmet, and_congr_right_iff]
    exact forall_congr' fun _ ↦ Bool.eq_iff_iff.symm
  · rw [hmet, hradius]

/-- With a small radius in the settings the target is missed at a point where it is drawn. -/
theorem target_met_where_drawn_iff_missed :
    ∃ (config : EditorConfig) (p : Point),
      ∃ c ∈ (run config hoveringRequests).graph.connections,
        (run config hoveringRequests).hovered = some c.id ∧ 0.5 < c.progress ∧
          (c.targetCircle (Curve.targetRadius + Curve.targetGrowth)).contains p.widen = true ∧
          (run config hoveringRequests).graph.hit config (some c.id) p ≠ .deleteTarget c.id := by
  let config : EditorConfig := { EditorConfig.standard with deleteRadius := 3 }
  let p : Point := ⟨0, 207⟩
  obtain ⟨c, hc, hhovered, hothers, hprogress, hdrawn, hmet⟩ :
      ∃ c ∈ (run config hoveringRequests).graph.connections,
        (run config hoveringRequests).hovered = some c.id ∧
          (∀ d ∈ (run config hoveringRequests).graph.connections, d.id ≠ c.id →
            ¬ d.HasTargetAt (config.pressRadius (some c.id) d.id) p) ∧
          0.5 < c.progress ∧
          (c.targetCircle (Curve.targetRadius + Curve.targetGrowth)).contains p.widen = true ∧
          (c.targetCircle (config.deleteRadius + Curve.targetGrowth)).contains p.widen = false := by
    decide +kernel
  have hdots : ∀ n ∈ (run config hoveringRequests).graph.nodes,
      ¬ n.HasDotAt config.pointRadius p := by decide +kernel
  have hnodes : ∀ n ∈ (run config hoveringRequests).graph.nodes, ¬ n.contains p = true := by
    decide +kernel
  have hhit := (target_met_where_drawn_iff config hoveringRequests hc hhovered hdots hnodes
    hothers).2.2.1
  refine ⟨config, p, c, hc, hhovered, hprogress, hdrawn, fun hmiss ↦ ?_⟩
  have hmet' := (hhit.mp hmiss).2
  rw [hmet] at hmet'
  cases hmet'

/-- With settings that are accepted, a connection is deleted by a press at a point that lies outside
every disc that is drawn for it. -/
theorem target_met_where_not_drawn :
    ∃ (config : EditorConfig) (p : Point), config.validate = .ok () ∧
      ∃ c ∈ (run config hoveringRequests).graph.connections,
        (run config hoveringRequests).hovered = some c.id ∧
          (∀ n ∈ (run config hoveringRequests).graph.nodes,
            ¬ n.HasDotAt config.pointRadius p ∧ ¬ n.contains p = true) ∧
          (∀ d ∈ (run config hoveringRequests).graph.connections, d.id ≠ c.id →
            ¬ d.HasTargetAt (config.pressRadius (some c.id) d.id) p) ∧
          (run config hoveringRequests).graph.hit config (some c.id) p = .deleteTarget c.id ∧
          (∀ view palette circle,
            (view, .disc circle) ∈ (Scene.ofConnection view palette c true).figures →
              circle.contains p.widen = false) ∧
          (∀ (pen : Pen) theme circle,
            (pen.map, .disc circle) ∈ pen.read (Drawing.ofConnection theme c true) →
              circle.contains p.widen = false) := by
  let config : EditorConfig := { EditorConfig.standard with deleteRadius := 20 }
  let p : Point := ⟨15, 200⟩
  obtain ⟨c, hc, hhovered, hnodes, hothers, hhit, hdrawn⟩ :
      ∃ c ∈ (run config hoveringRequests).graph.connections,
        (run config hoveringRequests).hovered = some c.id ∧
          (∀ n ∈ (run config hoveringRequests).graph.nodes,
            ¬ n.HasDotAt config.pointRadius p ∧ ¬ n.contains p = true) ∧
          (∀ d ∈ (run config hoveringRequests).graph.connections, d.id ≠ c.id →
            ¬ d.HasTargetAt (config.pressRadius (some c.id) d.id) p) ∧
          (run config hoveringRequests).graph.hit config (some c.id) p = .deleteTarget c.id ∧
          (c.targetCircle (Curve.targetRadius + Curve.targetGrowth)).contains p.widen = false := by
    decide +kernel
  refine ⟨config, p, by decide +kernel, c, hc, hhovered, hnodes, hothers, hhit,
    fun view palette circle hmem ↦ ?_, fun pen theme circle hmem ↦ ?_⟩
  · obtain ⟨-, rfl⟩ :=
      Connection.drawnTarget?_hovered.mp ((Connection.disc_mem_scene_iff view palette true).mp hmem)
    exact hdrawn
  · obtain ⟨-, rfl⟩ :=
      Connection.drawnTarget?_hovered.mp ((Connection.disc_mem_drawing_iff pen theme true).mp hmem)
    exact hdrawn

end Session

end LayerCanvas
