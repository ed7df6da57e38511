import LayerCanvas.Proofs.Graph.Move
import LayerCanvas.Proofs.Session.Calls

/-!
Strokes of the pointer: a press, moves and a release. While a gesture is under way a move is heard by
it alone. It takes the drawn connection along, or the node, or the view, and everything else in the
session stays as it is, what is pointed at included. So what a press and the moves after it make of
a session can be written down at once.

A stroke that draws a connection is then the same as connecting the two nodes, if it ends on the
input dot of another node, whether the connection is made or refused; and it is the same as nothing,
if it ends anywhere else.
-/

set_option autoImplicit false
set_option relaxedAutoImplicit false

namespace LayerCanvas.Session

/-- The moves of a pointer along a path, with the keys that are held. -/
def moves (path : List (Point × Modifiers)) : List Request :=
  path.map fun step ↦ .input (.pointerMove step.1 step.2)

/-- A press of the primary button, moves along a path, and a release of any button. -/
def stroke (p : Point) (modifiers : Modifiers) (path : List (Point × Modifiers)) (q : Point)
    (button : Button) (modifiers' : Modifiers) : List Request :=
  .input (.pointerDown p .primary modifiers) ::
    (moves path ++ [.input (.pointerUp q button modifiers')])

theorem serveAll_input (s : Session) (event : InputEvent) :
    s.serveAll [.input event] = s.handle event := rfl

variable {s : Session}

/-! ### Moves -/

/-- A move is heard by the gesture under way alone. -/
theorem handle_pointerMove (hbusy : s.gesture ≠ .idle) (p : Point) (modifiers : Modifiers) :
    s.handle (.pointerMove p modifiers) =
      { s with gesture := (s.gesture.drag p s.view).1 }.applyAll (s.gesture.drag p s.view).2 := by
  simp only [handle_eq, reply, pointedAt, hbusy, if_false, Gesture.handle]

/-- Moves take a drawn connection along. -/
theorem serveAll_moves_connecting {d : Dot} {pointer : Point}
    (h : s.gesture = .connecting d pointer) (path : List (Point × Modifiers)) :
    ∃ pointer', s.serveAll (moves path) = { s with gesture := .connecting d pointer' } := by
  induction path generalizing s pointer with
  | nil => exact ⟨pointer, by rw [← h]; rfl⟩
  | cons step rest ih =>
    have hstep : s.handle (.pointerMove step.1 step.2) =
        { s with gesture := .connecting d (s.view.transform.toCanvas step.1) } := by
      rw [handle_pointerMove (by simp [h]), h]
      rfl
    obtain ⟨pointer', hrest⟩ := ih (s := s.handle (.pointerMove step.1 step.2)) (by rw [hstep])
    refine ⟨pointer', hrest.trans ?_⟩
    rw [hstep]

/-- Moves take a dragged node along. -/
theorem serveAll_moves_dragging {id : NodeId} {grip : Point} (h : s.gesture = .dragging id grip)
    (path : List (Point × Modifiers)) :
    s.serveAll (moves path) =
      { s with
        graph := s.graph.applyAll ((path.map fun step ↦
          Gesture.dragTo (s.view.transform.toCanvas step.1) grip).map (.moveNode id)) } := by
  induction path generalizing s with
  | nil => rfl
  | cons step rest ih =>
    have hstep : s.handle (.pointerMove step.1 step.2) =
        { s with
          graph := s.graph.apply
            (.moveNode id (Gesture.dragTo (s.view.transform.toCanvas step.1) grip)) } := by
      rw [handle_pointerMove (by simp [h])]
      obtain ⟨⟩ := s
      subst h
      rfl
    have hrest := ih (s := s.handle (.pointerMove step.1 step.2)) (by rw [hstep]; exact h)
    refine hrest.trans ?_
    rw [hstep]
    rfl

/-- Moves take the view along. -/
theorem serveAll_moves_panning (h : s.gesture = .panning) (path : List (Point × Modifiers)) :
    s.serveAll (moves path) =
      { s with view := s.view.applyAll ((path.map Prod.fst).map (.updatePan (R := Float))) } := by
  induction path generalizing s with
  | nil => rfl
  | cons step rest ih =>
    have hstep : s.handle (.pointerMove step.1 step.2) =
        { s with view := s.view.updatePan step.1 } := by
      rw [handle_pointerMove (by simp [h])]
      obtain ⟨⟩ := s
      subst h
      rfl
    have hrest := ih (s := s.handle (.pointerMove step.1 step.2)) (by rw [hstep]; exact h)
    refine hrest.trans ?_
    rw [hstep]
    rfl

/-! ### Presses -/

/-- A press on an output dot begins to draw a connection, and does nothing else. -/
theorem handle_press_output (hidle : s.gesture = .idle) {p : Point} {d : Dot}
    (hpress : s.hit p = .dot d) (hkind : d.kind = .output) (modifiers : Modifiers) :
    s.handle (.pointerDown p .primary modifiers) =
      { s with gesture := .connecting d (s.view.transform.toCanvas p) } := by
  rw [handle_eq]
  simp [reply, under, pointedAt, hidle, hpress, hkind, Gesture.handle, Gesture.press,
    Gesture.isConnecting, applyAll]

/-- A press on a node selects it, raises it and takes hold of it. -/
theorem handle_press_node (hidle : s.gesture = .idle) {p origin : Point} {id : NodeId}
    (hpress : s.hit p = .node id origin) (modifiers : Modifiers) :
    s.handle (.pointerDown p .primary modifiers) =
      { s.select (some id) with
        gesture := .dragging id (Gesture.dragTo (s.view.transform.toCanvas p) origin)
        graph := s.graph.bringToFront id } := by
  rw [handle_eq]
  simp [reply, under, pointedAt, hidle, hpress, Gesture.handle, Gesture.press,
    Gesture.isConnecting, Gesture.dragTo, applyAll, apply, select]

/-! ### Releases -/

/-- A release ends the gesture under way. -/
theorem handle_pointerUp (s : Session) (q : Point) (button : Button) (modifiers : Modifiers) :
    s.handle (.pointerUp q button modifiers) =
      { s with gesture := .idle }.applyAll (s.gesture.release q (s.hit q) s.view).2 := rfl

/-! ### Drawing a connection -/

/-- What is left of a stroke that draws a connection is decided where it ends. -/
theorem serveAll_stroke_output (hidle : s.gesture = .idle) {p : Point} {d : Dot}
    (hpress : s.hit p = .dot d) (hkind : d.kind = .output) (modifiers : Modifiers)
    (path : List (Point × Modifiers)) (q : Point) (button : Button) (modifiers' : Modifiers)
    (pointer : Point) :
    s.serveAll (stroke p modifiers path q button modifiers') =
      s.applyAll ((Gesture.connecting d pointer).release q (s.hit q) s.view).2 := by
  have hpressed : s.serve (.input (.pointerDown p .primary modifiers)) =
      { s with gesture := .connecting d (s.view.transform.toCanvas p) } :=
    handle_press_output hidle hpress hkind modifiers
  obtain ⟨pointer', hmoves⟩ := serveAll_moves_connecting
    (s := s.serve (.input (.pointerDown p .primary modifiers))) (by rw [hpressed]) path
  have hreleased : s.serveAll (stroke p modifiers path q button modifiers') =
      ({ s with gesture := .connecting d pointer' } : Session).handle
        (.pointerUp q button modifiers') := by
    rw [stroke, serveAll_cons, serveAll_append, hmoves, hpressed, serveAll_input]
  -- A move points at nothing new while a gesture is under way, so the release meets what lies under
  -- `q` before the press.
  have hback : { s with gesture := .idle } = s := by rw [← hidle]
  rw [hreleased, handle_pointerUp]
  exact congrArg (applyAll · _) hback

/-- A stroke from an output dot to the input dot of another node is the same as connecting the two
nodes, whatever the path, the keys and the button of the release. A stroke from an output dot to
anything else leaves the session as it was before. -/
theorem stroke_connects_or_leaves (hidle : s.gesture = .idle) {p : Point} {d : Dot}
    (hpress : s.hit p = .dot d) (hkind : d.kind = .output) (modifiers : Modifiers)
    (path : List (Point × Modifiers)) (q : Point) (button : Button) (modifiers' : Modifiers) :
    (∀ e : Dot, s.hit q = .dot e → e.kind = .input → e.node ≠ d.node →
      s.serveAll (stroke p modifiers path q button modifiers') =
        s.serve (.connect d.node e.node)) ∧
    ((∀ e : Dot, s.hit q = .dot e → e.kind = .input → e.node = d.node) →
      s.serveAll (stroke p modifiers path q button modifiers') = s) := by
  rw [serveAll_stroke_output hidle hpress hkind modifiers path q button modifiers' d.position]
  refine ⟨fun e he hinput hother ↦ ?_, fun hnone ↦ ?_⟩
  · simp only [Gesture.release, he, hinput, hother, ne_eq, not_false_eq_true, and_self, if_true]
    rfl
  · cases hq : s.hit q with
    | dot e =>
      have hrefused : ¬ (e.kind = .input ∧ e.node ≠ d.node) := fun h ↦ h.2 (hnone e hq h.1)
      simp only [Gesture.release, hrefused, if_false]
      rfl
    | _ => rfl

/-- Two nodes are dropped. A stroke from the one by way of no point at all to the other connects
them; one that ends on the node it began at leaves the session as it was. -/
theorem stroke_connects_or_leaves_dropped :
    ∃ (requests : List Request) (path : List (Point × Modifiers)),
      let s := run .standard requests
      s.graph.connections = [] ∧
        (s.serveAll (stroke ⟨0, 43⟩ {} path ⟨300, 257⟩ .middle {})).graph.connections.length = 1 ∧
          s.serveAll (stroke ⟨0, 43⟩ {} path ⟨300, 257⟩ .middle {}) =
            s.serve (.connect ⟨"Input-1"⟩ ⟨"Input-2"⟩) ∧
          s.serveAll (stroke ⟨0, 43⟩ {} path ⟨0, 0⟩ .primary {}) = s := by
  let payload : String := "\x7b\"type\":\"Input\",\"label\":\"\"\x7d"
  let requests : List Request := [.drop payload ⟨0, 0⟩, .drop payload ⟨300, 300⟩]
  let path : List (Point × Modifiers) := [(⟨150, 100⟩, {}), (⟨0 / 0, 1 / 0⟩, {})]
  have hidle : (run .standard requests).gesture = .idle := by decide +kernel
  have hpress : (run .standard requests).hit ⟨0, 43⟩ = .dot ⟨⟨"Input-1"⟩, .output, ⟨0, 43⟩⟩ := by
    decide +kernel
  have hinput : (run .standard requests).hit ⟨300, 257⟩ =
      .dot ⟨⟨"Input-2"⟩, .input, ⟨300, 257⟩⟩ := by decide +kernel
  have hnode : (run .standard requests).hit ⟨0, 0⟩ = .node ⟨"Input-1"⟩ ⟨-70, -43⟩ := by
    decide +kernel
  have hconnects := (stroke_connects_or_leaves hidle hpress rfl {} path ⟨300, 257⟩ .middle {}).1
    _ hinput rfl (by decide)
  have hleaves := (stroke_connects_or_leaves hidle hpress rfl {} path ⟨0, 0⟩ .primary {}).2
    fun e he ↦ by cases hnode.symm.trans he
  refine ⟨requests, path, by decide +kernel, ?_, hconnects, hleaves⟩
  rw [hconnects]
  decide +kernel

end LayerCanvas.Session
