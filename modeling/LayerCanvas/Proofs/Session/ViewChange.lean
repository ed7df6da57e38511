import LayerCanvas.Proofs.Binary.Steps
import LayerCanvas.Proofs.Session.Hold
import LayerCanvas.Proofs.Session.Pan
import LayerCanvas.Proofs.Session.Stroke

/-!
View changes in the middle of a pan. The wheel, the keys and the page can zoom, fit and reset the
view while the pointer pans it. They set the offset, and the next move of the pointer sets it again,
from the anchor that was taken when the pan began and that they have not touched. So the move takes
back what they did to the offset, even if the pointer is where it was, and it leaves what they did
to the scale. What is left is neither the view before the change nor the one after it, unless the
change did not lead away from the offset that the anchor stands for.
-/

set_option autoImplicit false
set_option relaxedAutoImplicit false

namespace LayerCanvas

/-- The offset that a pan leads to, with the pointer at a point. -/
def PanAnchor.offsetAt {C : Type} [Scalar C] (anchor : PanAnchor C) (p : Point C) : Point C :=
  ⟨anchor.offset.x + (p.x - anchor.pointer.x), anchor.offset.y + (p.y - anchor.pointer.y)⟩

/-- Numeric equality with a point, in the coordinates of it that are numbers. -/
def Point.IsSame {C : Type} [Scalar C] (p q : Point C) : Prop :=
  (Scalar.isNumber q.x = true → (p.x == q.x) = true) ∧
    (Scalar.isNumber q.y = true → (p.y == q.y) = true)

/-- Where a pan began it leads back to the offset it began with. -/
theorem PanAnchor.offsetAt_pointer (anchor : PanAnchor) (h : anchor.pointer.isFinite = true) :
    (anchor.offsetAt anchor.pointer).IsSame anchor.offset := by
  obtain ⟨hx, hy⟩ := Bool.and_eq_true_iff.mp h
  exact ⟨Binary.add_sub_self_single hx, Binary.add_sub_self_single hy⟩

/-! ### The anchor -/

namespace Viewport

/-- Whether an operation leaves a pan as it is. -/
def Operation.SparesPan {C R : Type} : Operation C R → Prop
  | .startPan _ | .endPan => False
  | .setLocked locked => locked = false
  | _ => True

variable {C R : Type} [Scalar C] {v : Viewport C}

theorem pan_apply {operation : Operation C R} (h : operation.SparesPan) :
    (v.apply operation).pan = v.pan := by
  cases operation with
  | startPan pointer => exact h.elim
  | endPan => exact h.elim
  | setLocked locked =>
    obtain rfl : locked = false := h
    rfl
  | _ => exact (v.apply_frame (by trivial)).2

theorem pan_applyAll {operations : List (Operation C R)}
    (h : ∀ operation ∈ operations, operation.SparesPan) : (v.applyAll operations).pan = v.pan :=
  applyAll_induction (P := fun w ↦ w.pan = v.pan) (fun _ _ hop hw ↦ (pan_apply hop).trans hw)
    operations h rfl

/-- A move of the pointer sets the offset by the anchor, and nothing else. -/
theorem updatePan_eq {anchor : PanAnchor C} (hlocked : v.locked = false)
    (hpan : v.pan = some anchor) (p : Point C) :
    v.updatePan p = { v with transform := ⟨anchor.offsetAt p, v.transform.scale⟩ } := by
  simp [updatePan, hlocked, hpan, PanAnchor.offsetAt]

end Viewport

/-! ### The machine -/

namespace Gesture

theorem sparesPan_turn {p : Point} {amount : Float32} {view : Viewport} :
    ∀ operation ∈ (turn p amount view).flatMap Action.operations,
      operation.SparesPan := by
  unfold turn
  split_ifs <;> simp [Action.operations, Viewport.Operation.SparesPan]

theorem beginPan_panning {p : Point} {view : Viewport}
    (h : (beginPan p view).1 = .panning) :
    view.locked = false ∧ beginPan p view = (.panning, [.startPan p]) := by
  unfold beginPan at h ⊢
  split_ifs at h ⊢ with hlocked
  exact ⟨Bool.eq_false_iff.mpr hlocked, rfl⟩

/-- A press leads to a pan by beginning one, or by being passed over in the middle of one. -/
theorem press_panning {g : Gesture} {p : Point} {button : Button} {modifiers : Modifiers}
    {hit : Hit} {view : Viewport} (h : (g.press p button modifiers hit view).1 = .panning) :
    (view.locked = false ∧
      ∃ first : List Action, first.flatMap Action.operations = [] ∧
        g.press p button modifiers hit view = (.panning, first ++ [.startPan p])) ∨
      g.press p button modifiers hit view = (g, []) := by
  unfold press at h ⊢
  dsimp only at h ⊢
  split_ifs at h ⊢ with hconnecting hcanvas hpan hbutton
  · exact Or.inr rfl
  · obtain ⟨hlocked, hbegin⟩ := beginPan_panning h
    exact Or.inl ⟨hlocked, [], rfl, hbegin⟩
  · exact Or.inr rfl
  · cases hit with
    | dot d =>
      dsimp only at h ⊢
      split_ifs at h ⊢
      exact Or.inr rfl
    | deleteTarget id => cases h
    | node id origin => cases h
    | canvas =>
      obtain ⟨hlocked, hbegin⟩ := beginPan_panning h
      exact Or.inl ⟨hlocked, [.select none], rfl, by rw [hbegin]; rfl⟩

end Gesture

/-! ### The session -/

/-- Whether an event is one of the pointer, and not of the wheel. -/
def InputEvent.IsPointer : InputEvent → Prop
  | .pointerDown _ _ _ | .pointerMove _ _ | .pointerUp _ _ _ => True
  | .wheel _ _ => False

namespace Session

variable {s : Session} {request : Request}

/-- Whether a request is an event of the pointer. -/
def Request.IsPointer : Request → Prop
  | .input event => event.IsPointer
  | _ => False

/-- A pan that goes on was under way. -/
theorem gesture_of_not_isPointer (hnot : ¬ request.IsPointer)
    (hpanning : (s.serve request).gesture = .panning) : s.gesture = .panning := by
  rcases s.gesture_serve_cases request with hsame | hidle | ⟨event, rfl, hreply⟩
  · exact hsame ▸ hpanning
  · cases hidle.symm.trans hpanning
  · cases event with
    | wheel p amount => exact hreply.symm.trans hpanning
    | _ => exact absurd trivial hnot

/-- Locking ends a pan, and unlocking leaves it as it is. -/
theorem sparesPan_lockOperations (hpan : s.gesture = .panning) {locked : Bool}
    (hpanning : (s.setLocked locked).gesture = .panning) :
    ∀ operation ∈ s.lockOperations locked, operation.SparesPan := by
  cases locked with
  | false => simp [lockOperations, Viewport.Operation.SparesPan]
  | true =>
    have hidle : (s.setLocked true).gesture = .idle := by
      unfold setLocked
      simp only [hpan, and_self, if_true]
      exact gesture_cancelGesture _
    cases hidle.symm.trans hpanning

theorem sparesPan_shortcutOperations (hpan : s.gesture = .panning) {shortcut : Shortcut}
    (hpanning : (s.runShortcut shortcut).gesture = .panning) :
    ∀ operation ∈ s.shortcutOperations shortcut, operation.SparesPan := by
  cases shortcut with
  | toggleLock => exact sparesPan_lockOperations hpan hpanning
  | cancel => cases s.gesture_cancelGesture.symm.trans hpanning
  | _ => simp [shortcutOperations, zoomOperations, fitOperations, Viewport.Operation.SparesPan]

/-- While a pan goes on, only the pointer touches its anchor. -/
theorem sparesPan_operations (hnot : ¬ request.IsPointer)
    (hpanning : (s.serve request).gesture = .panning) :
    ∀ operation ∈ s.operations request, operation.SparesPan := by
  have hpan := gesture_of_not_isPointer hnot hpanning
  cases request with
  | input event =>
    cases event with
    | wheel p amount => exact Gesture.sparesPan_turn
    | _ => exact absurd trivial hnot
  | key key modifiers =>
    dsimp only [serve, key?, operations] at hpanning ⊢
    cases hkey : Shortcut.resolve? key modifiers with
    | none => simp
    | some shortcut =>
      rw [hkey] at hpanning
      exact sparesPan_shortcutOperations hpan hpanning
  | setLocked locked => exact sparesPan_lockOperations hpan hpanning
  | toggleLock => exact sparesPan_lockOperations hpan hpanning
  | clear => cases (gesture_of_clear_or_loads (s := s) (Or.inl rfl)).symm.trans hpanning
  | load text =>
    cases hgraph : s.graph.loadText text with
    | error fault => simp [operations, hgraph, Except.isOk, Except.toBool]
    | ok graph =>
      have hloads : s.Loads (.load text) := ⟨_, by rw [load, hgraph]; rfl⟩
      cases (gesture_of_clear_or_loads (Or.inr hloads)).symm.trans hpanning
  | _ => simp [operations, zoomOperations, fitOperations, Viewport.Operation.SparesPan]

/-- What happens in a pan besides the pointer leaves its anchor as it is. -/
theorem pan_serveAll {requests : List Request} (hnot : ∀ request ∈ requests, ¬ request.IsPointer)
    (hpanning : (s.serveAll requests).gesture = .panning) :
    s.gesture = .panning ∧ (s.serveAll requests).view.pan = s.view.pan := by
  induction requests using List.reverseRecOn with
  | nil => exact ⟨hpanning, rfl⟩
  | append_singleton requests request ih =>
    obtain ⟨hrest, hlast⟩ := List.forall_mem_append.mp hnot
    have hrequest := hlast request (List.mem_singleton_self request)
    have hserve : s.serveAll (requests ++ [request]) = (s.serveAll requests).serve request :=
      s.serveAll_append requests [request]
    rw [hserve] at hpanning ⊢
    obtain ⟨hgesture, hpan⟩ := ih hrest (gesture_of_not_isPointer hrequest hpanning)
    refine ⟨hgesture, Eq.trans ?_ hpan⟩
    rw [view_serve]
    exact Viewport.pan_applyAll (sparesPan_operations hrequest hpanning)

/-! ### Events of the pointer -/

/-- What a pan makes of an event of the pointer. It follows a move, so that the view is where the
anchor leads; it begins with a press, and leads back to the offset it began with; or it passes over
a press, as the whole session does. -/
inductive Heeds (before after : Session) (anchor : PanAnchor) : InputEvent → Prop
  | follows (p : Point) (modifiers : Modifiers)
    (h : anchor.offsetAt p = after.view.transform.offset) :
    Heeds before after anchor (.pointerMove p modifiers)
  | begins (p : Point) (button : Button) (modifiers : Modifiers)
    (h : anchor = ⟨p, after.view.transform.offset⟩)
    (hback : p.isFinite = true → (anchor.offsetAt p).IsSame after.view.transform.offset) :
    Heeds before after anchor (.pointerDown p button modifiers)
  | passes (p : Point) (button : Button) (modifiers : Modifiers) (h : after = before) :
    Heeds before after anchor (.pointerDown p button modifiers)

/-- A session that pans has an anchor, and is not locked. -/
theorem exists_anchor (hsteady : s.stance.Steady) (hpanning : s.gesture = .panning) :
    s.view.locked = false ∧ ∃ anchor, s.view.pan = some anchor := by
  have hpan : s.view.isPanning = true := hsteady.panning hpanning
  refine ⟨Bool.eq_false_iff.mpr fun hlocked ↦ ?_, Option.isSome_iff_exists.mp hpan⟩
  exact Bool.false_ne_true ((hsteady.locked hlocked).symm.trans hpan)

/-- In a pan, a move of the pointer sets the offset by the anchor, and does nothing else. -/
theorem handle_pointerMove_panning (hsteady : s.stance.Steady) (hpanning : s.gesture = .panning)
    {anchor : PanAnchor} (hanchor : s.view.pan = some anchor) (p : Point) (modifiers : Modifiers) :
    s.handle (.pointerMove p modifiers) =
      { s with
        view := { s.view with transform := ⟨anchor.offsetAt p, s.view.transform.scale⟩ } } := by
  rw [← Viewport.updatePan_eq (exists_anchor hsteady hpanning).1 hanchor p]
  exact serveAll_moves_panning hpanning [(p, modifiers)]

theorem heeds_pointerDown (hsteady : s.stance.Steady) {p : Point} {button : Button}
    {modifiers : Modifiers}
    (hpanning : (s.handle (.pointerDown p button modifiers)).gesture = .panning) :
    ∃ anchor, (s.handle (.pointerDown p button modifiers)).view.pan = some anchor ∧
      Heeds s (s.handle (.pointerDown p button modifiers)) anchor
        (.pointerDown p button modifiers) := by
  have hpress : s.reply (.pointerDown p button modifiers) =
      s.gesture.press p button modifiers (s.hit p) s.view := rfl
  rw [gesture_handle, hpress] at hpanning
  rcases Gesture.press_panning hpanning with ⟨hlocked, first, hfirst, hbegins⟩ | hpasses
  · have hview : (s.handle (.pointerDown p button modifiers)).view =
        { s.view with pan := some ⟨p, s.view.transform.offset⟩ } := by
      rw [view_handle, operations, hpress, hbegins, List.flatMap_append, hfirst]
      simp [Action.operations, Viewport.applyAll, Viewport.apply, Viewport.startPan?, hlocked]
    refine ⟨⟨p, s.view.transform.offset⟩, by rw [hview], .begins p button modifiers ?_ ?_⟩
    · rw [hview]
    · intro hfinite
      rw [hview]
      exact PanAnchor.offsetAt_pointer ⟨p, s.view.transform.offset⟩ hfinite
  · have hsame : s.handle (.pointerDown p button modifiers) = s := by
      rw [handle_eq, hpress, hpasses]
      rfl
    rw [hpasses] at hpanning
    obtain ⟨-, anchor, hanchor⟩ := exists_anchor hsteady hpanning
    exact ⟨anchor, by rw [hsame, hanchor], .passes p button modifiers hsame⟩

theorem heeds_pointerMove (hsteady : s.stance.Steady) {p : Point} {modifiers : Modifiers}
    (hpanning : (s.handle (.pointerMove p modifiers)).gesture = .panning) :
    ∃ anchor, (s.handle (.pointerMove p modifiers)).view.pan = some anchor ∧
      Heeds s (s.handle (.pointerMove p modifiers)) anchor (.pointerMove p modifiers) := by
  have hbefore : s.gesture = .panning := by
    have hdrag : (s.gesture.drag p s.view).1 = .panning := (s.gesture_handle _).symm.trans hpanning
    cases hgesture : s.gesture <;> simp_all [Gesture.drag]
  obtain ⟨-, anchor, hanchor⟩ := exists_anchor hsteady hbefore
  rw [handle_pointerMove_panning hsteady hbefore hanchor]
  exact ⟨anchor, hanchor, .follows p modifiers rfl⟩

/-- An event of the pointer that leaves a pan under way leaves it with an anchor, and the pan began
with it, followed it, or passed over it. -/
theorem heeds_handle (hsteady : s.stance.Steady) {event : InputEvent} (hpointer : event.IsPointer)
    (hpanning : (s.handle event).gesture = .panning) :
    ∃ anchor, (s.handle event).view.pan = some anchor ∧
      Heeds s (s.handle event) anchor event := by
  cases event with
  | pointerDown p button modifiers => exact heeds_pointerDown hsteady hpanning
  | pointerMove p modifiers => exact heeds_pointerMove hsteady hpanning
  | pointerUp p button modifiers => cases (s.gesture_handle _).symm.trans hpanning
  | wheel p amount => exact hpointer.elim

/-! ### Runs -/

/-- Whatever is done in the middle of a pan besides the pointer, a move of the pointer to where it
was last does no more than set the offset to where the anchor leads from there: the offset as it was
after the last event of the pointer, if the pan took note of that event. The scale stays as the
changes left it. So the view stays as they left it if and only if that is the offset they left. -/
theorem view_change_survives_move_iff (config : EditorConfig) (before : List Request)
    {event : InputEvent} (hpointer : event.IsPointer) {others : List Request}
    (hothers : ∀ request ∈ others, ¬ request.IsPointer)
    (hpanning : (run config (before ++ .input event :: others)).gesture = .panning)
    (modifiers : Modifiers) :
    let told := run config (before ++ [.input event])
    let s := run config (before ++ .input event :: others)
    let moved := s.serve (.input (.pointerMove event.position modifiers))
    ∃ anchor, told.view.pan = some anchor ∧ Heeds (run config before) told anchor event ∧
      moved = { s with
        view := { s.view with
          transform := ⟨anchor.offsetAt event.position, s.view.transform.scale⟩ } } ∧
      (moved.view.transform = s.view.transform ↔
        s.view.transform.offset = anchor.offsetAt event.position) := by
  intro told s moved
  have hs : s = told.serveAll others := by
    simp only [s, told, run_append, serveAll_cons]
    rfl
  have htold : told = (run config before).handle event := run_concat config before (.input event)
  obtain ⟨hpan, hkept⟩ := pan_serveAll hothers (hs ▸ hpanning : (told.serveAll others).gesture = _)
  rw [htold] at hpan
  obtain ⟨anchor, hanchor, hheeds⟩ := heeds_handle (steady_run config before) hpointer hpan
  rw [← htold] at hanchor hheeds
  have hmoved := handle_pointerMove_panning (steady_run config _) hpanning
    (show s.view.pan = some anchor by rw [hs, hkept, hanchor]) event.position modifiers
  refine ⟨anchor, hanchor, hheeds, hmoved, ?_⟩
  rw [show moved = _ from hmoved]
  constructor
  · exact fun h ↦ (congrArg Transform.offset h).symm
  · intro h
    rw [← h]

/-- The view is panned, and then zoomed from the page about the middle of the window. A move to
where the pointer was takes the offset back to that of the pan, and leaves the scale. -/
theorem view_change_survives_move_iff_zoomed :
    ∃ (before others : List Request) (event : InputEvent),
      (run .standard (before ++ .input event :: others)).gesture = .panning ∧
        (run .standard (before ++ .input event :: others)).view.transform = ⟨⟨44, 33⟩, 1.1⟩ ∧
          ((run .standard (before ++ .input event :: others)).serve
            (.input (.pointerMove event.position {}))).view.transform = ⟨⟨40, 30⟩, 1.1⟩ := by
  let before : List Request := [.input (.pointerDown ⟨0, 0⟩ .middle {})]
  let others : List Request := [.zoom .inward]
  let event : InputEvent := .pointerMove ⟨40, 30⟩ {}
  have hpanning : (run .standard (before ++ .input event :: others)).gesture = .panning := by
    decide +kernel
  have hpointer : event.IsPointer := trivial
  have hothers : ∀ request ∈ others, ¬ request.IsPointer := by
    simp [others, Request.IsPointer]
  obtain ⟨anchor, hanchor, -, hmoved, -⟩ := view_change_survives_move_iff .standard before
    hpointer hothers hpanning {}
  have horigin : (run .standard (before ++ [.input event])).view.pan =
      some ⟨⟨0, 0⟩, ⟨0, 0⟩⟩ := by decide +kernel
  have htransform := congrArg (·.view.transform) hmoved
  obtain rfl := Option.some.inj (horigin.symm.trans hanchor)
  refine ⟨before, others, event, hpanning, by decide +kernel, htransform.trans ?_⟩
  decide +kernel

/-- While the view is panned the wheel zooms about the pointer, and the point of the canvas under it
stays there. The next move, to where the pointer is, leads away from it. -/
theorem view_change_lost :
    ∃ (requests : List Request) (p : Point),
      let told := run .standard requests
      let zoomed := told.serve (.input (.wheel p (-1)))
      let moved := zoomed.serve (.input (.pointerMove p {}))
      p.isFinite = true ∧ zoomed.gesture = .panning ∧
        zoomed.view.transform.toCanvas p = told.view.transform.toCanvas p ∧
          moved.view.transform ≠ zoomed.view.transform ∧
            moved.view.transform.toCanvas p ≠ zoomed.view.transform.toCanvas p :=
  ⟨[.input (.pointerDown ⟨100, 100⟩ .middle {})], ⟨100, 100⟩, by decide +kernel⟩

end Session

end LayerCanvas
