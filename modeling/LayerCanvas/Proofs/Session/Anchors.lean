import LayerCanvas.Proofs.Graph.Anchors
import LayerCanvas.Proofs.Session.Change

/-!
The ends of the connections of a session. A session connects two nodes from anchor to anchor, and
whatever else it asks of the graph leaves every end at the anchor it belongs to. So the lines on the
canvas meet the dots of the nodes after every run, those of fading connections included.
-/

set_option autoImplicit false
set_option relaxedAutoImplicit false

namespace LayerCanvas.Session

variable {s s' : Session}

/-- The ends of the connections are where they belong. -/
structure Anchored (s : Session) : Prop where
  wellFormed : s.graph.WellFormed
  anchored : s.graph.Anchored

namespace Anchored

theorem new (config : EditorConfig) : (new config).Anchored := ⟨.empty config 1, .empty config 1⟩

/-- Asking for a frame moves no end. -/
theorem schedule (h : s.Anchored) : s.schedule.Anchored := by
  rw [schedule_eq]
  exact ⟨h.wellFormed, h.anchored⟩

theorem minor (h : s.Anchored) (hstep : Minor s s') : s'.Anchored := by
  refine ⟨hstep.wellFormed h.wellFormed, ?_⟩
  cases hstep with
  | look hsame =>
    have hgraph : s'.graph = s.graph := congrArg Prod.fst hsame
    rw [hgraph]
    exact h.anchored
  | select id => exact h.anchored
  | hover p => exact h.anchored
  | edit call hedit => exact h.anchored.edit h.wellFormed.nodeIds_nodup hedit

theorem major (h : s.Anchored) (hstep : Major s s') : s'.Anchored := by
  refine ⟨hstep.wellFormed h.wellFormed, ?_⟩
  cases hstep with
  | connect source target start stop hmade hstart hstop =>
    obtain ⟨-, hmade⟩ := Graph.addConnection?_eq_some_iff.mp hmade
    obtain ⟨n, hsource, rfl⟩ := Option.map_eq_some_iff.mp hstart
    obtain ⟨m, htarget, rfl⟩ := Option.map_eq_some_iff.mp hstop
    cases hmade
    rw [graph_schedule]
    exact h.anchored.connect hsource htarget _ _ _
  | @deleteConnection id graph hdel =>
    have hgraph : graph = s.graph.deleteConnection id := by
      rw [Graph.deleteConnection, hdel, Option.getD_some]
    subst hgraph
    rw [graph_schedule]
    exact h.anchored.deleteConnection h.wellFormed.connectionIds_nodup id
  | deleteNode id hdel =>
    rw [graph_schedule]
    exact h.anchored.deleteNode? h.wellFormed.connectionIds_nodup hdel
  | clear =>
    rw [Session.clear, graph_schedule]
    exact h.anchored.clear h.wellFormed
  | tick now order => exact h.anchored.tickIn h.wellFormed.tickable now order
  | load text hload =>
    obtain ⟨_, -, hload⟩ := Graph.exists_load_of_loadText hload
    exact .load hload

theorem serve (h : s.Anchored) (request : Request) : (s.serve request).Anchored :=
  (s.changes_serve request).keep (fun _ _ ↦ minor) (fun _ _ ↦ major) h

end Anchored

/-- After every run of a session each connection, live or fading, begins at the output anchor of the
node it leaves and ends at the input anchor of the node it enters. -/
theorem ends_at_anchors_run (config : EditorConfig) (requests : List Request) :
    ∀ c ∈ (run config requests).graph.connections, ∃ source target,
      (run config requests).graph.node? c.source = some source ∧
        (run config requests).graph.node? c.target = some target ∧
          c.start = source.outputAnchor ∧ c.stop = target.inputAnchor := by
  have h : (run config requests).Anchored :=
    run_induction (.new config) (fun _ request h ↦ h.serve request) requests
  exact (Graph.anchored_iff h.wellFormed.nodeIds_nodup).mp h.anchored

/-- Two nodes are connected, the connection is deleted, and they are connected again. The upper node
is then dragged sideways, and the first connection, which is still fading, follows it. -/
theorem ends_at_anchors_run_dragged :
    ∃ requests, ∃ c ∈ (run .standard requests).graph.connections,
      c.isDeleting = true ∧ c.start = ⟨100, 43⟩ ∧ c.stop = ⟨0, 357⟩ ∧
        ∃ source target : Node, (run .standard requests).graph.node? c.source = some source ∧
          (run .standard requests).graph.node? c.target = some target ∧
            c.start = source.outputAnchor ∧ c.stop = target.inputAnchor := by
  let payload : String := "\x7b\"type\":\"Input\",\"label\":\"\"\x7d"
  let requests : List Request :=
    [.drop payload ⟨0, 0⟩, .drop payload ⟨0, 400⟩, .connect ⟨"Input-1"⟩ ⟨"Input-2"⟩,
      .deleteConnection ⟨"conn-3"⟩, .connect ⟨"Input-1"⟩ ⟨"Input-2"⟩, .tick 0 (.listed _),
      .input (.pointerDown ⟨0, 0⟩ .primary {}), .input (.pointerMove ⟨100, 0⟩ {}),
      .input (.pointerUp ⟨100, 0⟩ .primary {}), .tick 100 (.listed _)]
  have hfading : ∃ c ∈ (run .standard requests).graph.connections,
      c.isDeleting = true ∧ c.start = ⟨100, 43⟩ ∧ c.stop = ⟨0, 357⟩ := by decide +kernel
  obtain ⟨c, hc, hdeleting, hstart, hstop⟩ := hfading
  exact ⟨requests, c, hc, hdeleting, hstart, hstop, ends_at_anchors_run .standard requests c hc⟩

end LayerCanvas.Session
