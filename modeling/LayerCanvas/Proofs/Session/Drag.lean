import LayerCanvas.Proofs.Graph.Move
import LayerCanvas.Proofs.Session.Hold
import LayerCanvas.Proofs.Session.Stroke

/-!
Strokes that move things. Where a dragged node goes depends on where the pointer took hold of it and
on where the pointer is, and where the view goes depends on where it was when the pan began. Neither
depends on where the last move left things. So nothing adds up on the way, and nothing of the way
is left: a drag is the same as one move of the node, and a pan is the same as its last move.
-/

set_option autoImplicit false
set_option relaxedAutoImplicit false

namespace LayerCanvas.Session

/-- Where a node goes that is dragged by a point of the screen to another. -/
def draggedTo (s : Session) (origin p q : Point) : Point :=
  Gesture.dragTo (s.view.transform.toCanvas q)
    (Gesture.dragTo (s.view.transform.toCanvas p) origin)

variable {s : Session}

/-- Letting go of a node moves it to the pointer. -/
theorem handle_pointerUp_dragging {id : NodeId} {grip q : Point} (h : s.gesture = .dragging id grip)
    {moved : Graph}
    (hmoved : s.graph.moveNode? id (Gesture.dragTo (s.view.transform.toCanvas q) grip) = some moved)
    (button : Button) (modifiers : Modifiers) :
    s.handle (.pointerUp q button modifiers) = { s with gesture := .idle, graph := moved } := by
  rw [handle_pointerUp, h]
  simp [Gesture.release, applyAll, apply, hmoved]

/-- A drag selects and raises the node, and otherwise does what moving the node once would do. -/
theorem serveAll_stroke_node (hidle : s.gesture = .idle) {p origin : Point} {id : NodeId}
    (hpress : s.hit p = .node id origin) (modifiers : Modifiers) (path : List (Point × Modifiers))
    (q : Point) (button : Button) (modifiers' : Modifiers) {moved : Graph}
    (hmoved : (s.graph.bringToFront id).moveNode? id (s.draggedTo origin p q) = some moved) :
    s.serveAll (stroke p modifiers path q button modifiers') =
      { s.select (some id) with graph := moved } := by
  have hpressed : s.serve (.input (.pointerDown p .primary modifiers)) =
      { s.select (some id) with
        gesture := .dragging id (Gesture.dragTo (s.view.transform.toCanvas p) origin)
        graph := s.graph.bringToFront id } := handle_press_node hidle hpress modifiers
  have hdragged := serveAll_moves_dragging
    (s := s.serve (.input (.pointerDown p .primary modifiers))) (by rw [hpressed]) path
  rw [hpressed] at hdragged
  -- The grip is measured once, at the press, so the last move does not see the ones before it.
  have hlast := (Graph.moveNode?_applyAll_moveNode _ id (path.map fun step ↦
    Gesture.dragTo (s.view.transform.toCanvas step.1)
      (Gesture.dragTo (s.view.transform.toCanvas p) origin)) _).trans hmoved
  rw [stroke, serveAll_cons, serveAll_append, serveAll_input, hpressed, hdragged,
    handle_pointerUp_dragging rfl hlast, ← hidle]
  rfl

/-- Of a pan only the last move is left. -/
theorem serveAll_moves_concat_panning (h : s.gesture = .panning) (path : List (Point × Modifiers))
    (last : Point × Modifiers) :
    s.serveAll (moves (path ++ [last])) = s.serveAll (moves [last]) := by
  have hview : s.view.applyAll (((path ++ [last]).map Prod.fst).map (.updatePan (R := Float))) =
      s.view.updatePan last.1 := by
    rw [List.map_append, List.map_append, Viewport.applyAll_append]
    exact s.view.updatePan_applyAll (path.map Prod.fst) last.1
  rw [serveAll_moves_panning h, serveAll_moves_panning h, hview]
  rfl

/-- Whatever way the pointer takes, a drag of a node to a place on the canvas is the same as
selecting the node, raising it and moving it there once. After a press that begins a pan all moves
together are the same as the last one. -/
theorem strokes_do_not_drift (config : EditorConfig) (requests : List Request)
    (hidle : (run config requests).gesture = .idle) :
    (∀ (p origin : Point) (id : NodeId), (run config requests).hit p = .node id origin →
      ∀ (modifiers : Modifiers) (path : List (Point × Modifiers)) (q : Point) (button : Button)
        (modifiers' : Modifiers), ((run config requests).draggedTo origin p q).isFinite = true →
          ((run config requests).graph.node? id).map Node.origin = some origin ∧
            ∃ moved, ((run config requests).graph.bringToFront id).moveNode? id
                ((run config requests).draggedTo origin p q) = some moved ∧
              (run config requests).serveAll (stroke p modifiers path q button modifiers') =
                { (run config requests).select (some id) with graph := moved }) ∧
    ∀ (p : Point) (button : Button) (modifiers : Modifiers),
      ((run config requests).serve (.input (.pointerDown p button modifiers))).gesture =
        .panning →
      ∀ (path : List (Point × Modifiers)) (last : Point × Modifiers),
        (run config requests).serveAll
            (.input (.pointerDown p button modifiers) :: moves (path ++ [last])) =
          (run config requests).serveAll
            [.input (.pointerDown p button modifiers), .input (.pointerMove last.1 last.2)] := by
  refine ⟨fun p origin id hpress modifiers path q button modifiers' hfinite ↦ ?_,
    fun p button modifiers hpan path last ↦ serveAll_moves_concat_panning hpan path last⟩
  have hwf := wellFormed_graph_run config requests
  obtain ⟨n, hn, rfl, rfl⟩ := Graph.exists_of_hit_node hpress
  have hraised : n.id ∈ ((run config requests).graph.bringToFront n.id).nodeIds :=
    (Graph.alike_bringToFront _ _).nodeIds.mem_iff.mpr (List.mem_map_of_mem hn)
  obtain ⟨moved, hmoved⟩ := Graph.exists_moveNode?_eq_some hraised hfinite
  refine ⟨?_, moved, hmoved,
    serveAll_stroke_node hidle hpress modifiers path q button modifiers' hmoved⟩
  rw [(Graph.node?_eq_some_iff hwf.nodeIds_nodup).mpr ⟨hn, rfl⟩]
  rfl

/-- A node is dropped and dragged by way of no point at all, and the view is panned. -/
theorem strokes_do_not_drift_dropped :
    ∃ (requests : List Request) (path : List (Point × Modifiers)) (last : Point × Modifiers)
      (moved : Graph),
      (run .standard requests).serveAll (stroke ⟨0, 0⟩ {} path ⟨100, 50⟩ .middle {}) =
          { (run .standard requests).select (some ⟨"Input-1"⟩) with graph := moved } ∧
        (moved.node? ⟨"Input-1"⟩).map Node.origin = some ⟨30, 7⟩ ∧
        (run .standard requests).serveAll
            (.input (.pointerDown ⟨500, 500⟩ .primary {}) :: moves (path ++ [last])) =
          (run .standard requests).serveAll
            [.input (.pointerDown ⟨500, 500⟩ .primary {}),
              .input (.pointerMove last.1 last.2)] := by
  let payload : String := "\x7b\"type\":\"Input\",\"label\":\"\"\x7d"
  let requests : List Request := [.drop payload ⟨0, 0⟩]
  let path : List (Point × Modifiers) := [(⟨-700, 1000⟩, {}), (⟨0 / 0, 1 / 0⟩, {})]
  obtain ⟨hdrag, hpan⟩ := strokes_do_not_drift .standard requests (by decide +kernel)
  have hpress : (run .standard requests).hit ⟨0, 0⟩ = .node ⟨"Input-1"⟩ ⟨-70, -43⟩ := by
    decide +kernel
  obtain ⟨-, moved, hmoved, hstroke⟩ := hdrag _ _ _ hpress {} path ⟨100, 50⟩ .middle {}
    (by decide +kernel)
  have hplace : (((run .standard requests).graph.bringToFront ⟨"Input-1"⟩).moveNode? ⟨"Input-1"⟩
      ((run .standard requests).draggedTo ⟨-70, -43⟩ ⟨0, 0⟩ ⟨100, 50⟩)).bind
        (fun moved : Graph ↦ (moved.node? ⟨"Input-1"⟩).map Node.origin) = some ⟨30, 7⟩ := by
    decide +kernel
  rw [hmoved] at hplace
  have hpanned : ((run .standard requests).serve
      (.input (.pointerDown ⟨500, 500⟩ .primary {}))).gesture = .panning := by decide +kernel
  exact ⟨requests, path, (⟨0, 1⟩, {}), moved, hstroke, hplace,
    hpan ⟨500, 500⟩ .primary {} hpanned path _⟩

end LayerCanvas.Session
