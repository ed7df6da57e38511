import LayerCanvas.Proofs.Session.Run
import LayerCanvas.Proofs.Viewport.Run

/-!
The view of a session. The gesture and the view are one half of a session, and the graph with what
is selected and pointed at is the other; a request that is about the other half leaves the first as
it was. What the remaining requests ask of the view is listed, operation by operation, so that the
view after a request is the view after its operations.
-/

set_option autoImplicit false
set_option relaxedAutoImplicit false

namespace LayerCanvas

/-- What an action asks of the view. -/
def Action.operations : Action → List Viewport.Operation
  | .startPan pointer => [.startPan pointer]
  | .updatePan pointer => [.updatePan pointer]
  | .endPan => [.endPan]
  | .zoom direction center => [.zoom direction (some center)]
  | _ => []

theorem Action.not_isLock (action : Action) :
    ∀ operation ∈ action.operations, ¬ operation.IsLock := by
  cases action <;> simp [Action.operations, Viewport.Operation.IsLock]

namespace Session

variable {s s' : Session}

/-! ### Events -/

/-- What the machine is told to lie under the pointer. -/
def under (s : Session) : InputEvent → Hit
  | .pointerDown p _ _ | .pointerUp p _ _ => s.hit p
  | .pointerMove _ _ | .wheel _ _ => .canvas

/-- What the machine answers to an event. -/
def reply (s : Session) (event : InputEvent) : Gesture × List Action :=
  s.gesture.handle event (s.under event) s.view

/-- What is pointed at when the machine is told of an event. -/
def pointedAt (s : Session) : InputEvent → Option ConnectionId
  | .pointerMove p _ => if s.gesture = .idle then s.hoverAt p else s.hovered
  | _ => s.hovered

theorem handle_eq (s : Session) (event : InputEvent) :
    s.handle event =
      { s with gesture := (s.reply event).1, hovered := s.pointedAt event }.applyAll
        (s.reply event).2 := by
  cases event with
  | pointerMove p modifiers =>
    unfold handle reply pointedAt
    dsimp only
    split_ifs <;> rfl
  | _ => rfl

/-! ### The other half of a session -/

/-- The gesture and the view. -/
def pose (s : Session) : Gesture × Viewport := (s.gesture, s.view)

theorem pose_schedule (s : Session) : s.schedule.pose = s.pose := by
  unfold schedule
  split_ifs <;> rfl

theorem pose_drop? {payload : String} {p : Point} {made : Session × NodeId}
    (h : s.drop? payload p = some made) : made.1.pose = s.pose := by
  obtain ⟨layer, -, h⟩ := Option.bind_eq_some_iff.mp h
  dsimp only at h
  split at h
  · cases h
  · cases h
    rfl

theorem pose_connect? {source target : NodeId} {made : Session × ConnectionId}
    (h : s.connect? source target = some made) : made.1.pose = s.pose := by
  obtain ⟨source', -, h⟩ := Option.bind_eq_some_iff.mp h
  obtain ⟨target', -, h⟩ := Option.bind_eq_some_iff.mp h
  obtain ⟨⟨graph, id⟩, -, h⟩ := Option.bind_eq_some_iff.mp h
  cases h
  exact pose_schedule _

theorem pose_deleteConnection? {id : ConnectionId} (h : s.deleteConnection? id = some s') :
    s'.pose = s.pose := by
  obtain ⟨graph, -, rfl⟩ := Option.map_eq_some_iff.mp h
  exact pose_schedule _

theorem pose_deleteNode? {id : NodeId} (h : s.deleteNode? id = some s') : s'.pose = s.pose := by
  obtain ⟨graph, -, rfl⟩ := Option.map_eq_some_iff.mp h
  exact pose_schedule _

theorem pose_deleteSelected? (h : s.deleteSelected? = some s') : s'.pose = s.pose := by
  obtain ⟨id, -, h⟩ := Option.bind_eq_some_iff.mp h
  exact pose_deleteNode? h

/-- What a request leaves alone when it is done, it leaves alone too when it is refused. -/
theorem frame_getD {β : Type} {f : Session → β} {result : Option Session}
    (h : ∀ s', result = some s' → f s' = f s) : f (result.getD s) = f s := by
  cases hresult : result with
  | none => rfl
  | some s' => exact h s' hresult

theorem pose_made {α : Type} {result : Option (Session × α)}
    (h : ∀ made, result = some made → made.1.pose = s.pose) :
    ((result.map Prod.fst).getD s).pose = s.pose := by
  refine frame_getD fun s' hs' ↦ ?_
  obtain ⟨made, hmade, rfl⟩ := Option.map_eq_some_iff.mp hs'
  exact h made hmade

theorem pose_setParam (s : Session) (id : NodeId) (name : String) (value : ParamValue) :
    ((s.setParam id name value).toOption.getD s).pose = s.pose := by
  unfold setParam
  cases s.graph.setParam id name value <;> rfl

/-! ### Actions -/

/-- An action is heard by the view alone. -/
theorem pose_apply (s : Session) (action : Action) :
    (s.apply action).pose = (s.gesture, s.view.applyAll action.operations) := by
  cases action with
  | connect source target => exact pose_made fun _ ↦ pose_connect?
  | deleteConnection id => exact frame_getD fun _ ↦ pose_deleteConnection?
  | _ => rfl

theorem pose_applyAll (s : Session) (actions : List Action) :
    (s.applyAll actions).pose =
      (s.gesture, s.view.applyAll (actions.flatMap Action.operations)) := by
  induction actions generalizing s with
  | nil => rfl
  | cons action actions ih =>
    have happly := s.pose_apply action
    simp only [pose, Prod.mk.injEq] at happly
    obtain ⟨hgesture, hview⟩ := happly
    have hrest : (s.applyAll (action :: actions)).pose = ((s.apply action).applyAll actions).pose :=
      rfl
    rw [hrest, ih, hgesture, hview, List.flatMap_cons, Viewport.applyAll_append]

/-! ### Requests -/

/-- What giving up the gesture asks of the view. -/
def cancelOperations (s : Session) : List Viewport.Operation :=
  s.gesture.cancel.2.flatMap Action.operations

/-- What locking or unlocking asks of the view. -/
def lockOperations (s : Session) (locked : Bool) : List Viewport.Operation :=
  .setLocked locked :: if locked ∧ s.gesture = .panning then s.cancelOperations else []

/-- What one step of zooming asks of the view. -/
def zoomOperations (s : Session) (direction : ZoomDirection) : List Viewport.Operation :=
  [.zoom direction (some s.viewCenter)]

/-- What showing all nodes asks of the view. -/
def fitOperations (s : Session) : List Viewport.Operation := [.fit s.graph.nodes s.width s.height]

/-- What a shortcut asks of the view. -/
def shortcutOperations (s : Session) : Shortcut → List Viewport.Operation
  | .zoomIn => s.zoomOperations .inward
  | .zoomOut => s.zoomOperations .outward
  | .resetView => [.reset]
  | .fitView => s.fitOperations
  | .toggleLock => s.lockOperations !s.view.locked
  | .deleteSelected => []
  | .cancel => s.cancelOperations

/-- What a request asks of the view. -/
def operations (s : Session) : Request → List Viewport.Operation
  | .input event => (s.reply event).2.flatMap Action.operations
  | .key key modifiers => ((Shortcut.resolve? key modifiers).map s.shortcutOperations).getD []
  | .zoom direction => s.zoomOperations direction
  | .fit => s.fitOperations
  | .resetView => [.reset]
  | .setLocked locked => s.lockOperations locked
  | .toggleLock => s.lockOperations !s.view.locked
  | .clear => [.endPan]
  | .load text => if (s.graph.loadText text).isOk then [.endPan] else []
  | _ => []

theorem view_of_pose {v : Viewport} {g : Gesture} (h : s'.pose = (g, v)) : s'.view = v :=
  congrArg Prod.snd h

theorem view_handle (s : Session) (event : InputEvent) :
    (s.handle event).view = s.view.applyAll (s.operations (.input event)) := by
  rw [handle_eq]
  exact view_of_pose (pose_applyAll _ _)

theorem view_cancelGesture (s : Session) :
    s.cancelGesture.view = s.view.applyAll s.cancelOperations := view_of_pose (pose_applyAll _ _)

theorem view_setLocked (s : Session) (locked : Bool) :
    (s.setLocked locked).view = s.view.applyAll (s.lockOperations locked) := by
  unfold setLocked lockOperations
  dsimp only
  split_ifs
  · exact view_cancelGesture _
  · rfl

theorem view_zoom (s : Session) (direction : ZoomDirection) :
    ((s.zoom? direction).getD s).view = s.view.applyAll (s.zoomOperations direction) := by
  unfold zoom?
  change _ = (s.view.zoom? direction (some s.viewCenter)).getD s.view
  cases s.view.zoom? direction (some s.viewCenter) <;> rfl

theorem view_fit (s : Session) : (s.fit?.getD s).view = s.view.applyAll s.fitOperations := by
  unfold fit?
  change _ = (s.view.fit? s.graph.nodes s.width s.height).getD s.view
  cases s.view.fit? s.graph.nodes s.width s.height <;> rfl

theorem view_runShortcut (s : Session) (shortcut : Shortcut) :
    (s.runShortcut shortcut).view = s.view.applyAll (s.shortcutOperations shortcut) := by
  cases shortcut with
  | zoomIn => exact s.view_zoom .inward
  | zoomOut => exact s.view_zoom .outward
  | resetView => rfl
  | fitView => exact s.view_fit
  | toggleLock => exact s.view_setLocked _
  | deleteSelected => exact view_of_pose (frame_getD fun _ ↦ pose_deleteSelected?)
  | cancel => exact s.view_cancelGesture

/-- The view after a request is the view after what the request asks of it. -/
theorem view_serve (s : Session) (request : Request) :
    (s.serve request).view = s.view.applyAll (s.operations request) := by
  cases request with
  | input event => exact s.view_handle event
  | key key modifiers =>
    dsimp only [serve, key?, operations]
    cases Shortcut.resolve? key modifiers with
    | none => rfl
    | some shortcut => exact s.view_runShortcut shortcut
  | drop payload p => exact view_of_pose (pose_made fun _ ↦ pose_drop?)
  | zoom direction => exact s.view_zoom direction
  | fit => exact s.view_fit
  | setLocked locked => exact s.view_setLocked locked
  | toggleLock => exact s.view_setLocked _
  | connect source target => exact view_of_pose (pose_made fun _ ↦ pose_connect?)
  | deleteConnection id => exact view_of_pose (frame_getD fun _ ↦ pose_deleteConnection?)
  | deleteNode id => exact view_of_pose (frame_getD fun _ ↦ pose_deleteNode?)
  | deleteSelected => exact view_of_pose (frame_getD fun _ ↦ pose_deleteSelected?)
  | clear => exact view_of_pose (pose_schedule _)
  | setParam id name value => exact view_of_pose (s.pose_setParam id name value)
  | load text =>
    dsimp only [serve, load, operations]
    cases s.graph.loadText text <;> rfl
  | _ => rfl

/-- Giving up the gesture does no more to the view than end a pan. -/
theorem eq_endPan_of_mem_cancelOperations {operation : Viewport.Operation}
    (h : operation ∈ s.cancelOperations) : operation = .endPan := by
  unfold cancelOperations Gesture.cancel at h
  split_ifs at h <;> simp_all [Action.operations]

theorem not_isMove_lockOperations (s : Session) (locked : Bool) :
    ∀ operation ∈ s.lockOperations locked, ¬ operation.IsMove := by
  intro operation hoperation
  rcases List.mem_cons.mp hoperation with rfl | hoperation
  · exact id
  · split_ifs at hoperation
    · rw [eq_endPan_of_mem_cancelOperations hoperation]
      exact id
    · exact absurd hoperation List.not_mem_nil

theorem shortcutOperations_cases (s : Session) (shortcut : Shortcut) :
    (∀ operation ∈ s.shortcutOperations shortcut, ¬ operation.IsLock) ∨
      ∀ operation ∈ s.shortcutOperations shortcut, ¬ operation.IsMove := by
  cases shortcut with
  | toggleLock => exact Or.inr (s.not_isMove_lockOperations _)
  | cancel =>
    refine Or.inl fun operation hoperation ↦ ?_
    rw [eq_endPan_of_mem_cancelOperations hoperation]
    exact id
  | _ => exact Or.inl (by simp [shortcutOperations, zoomOperations, fitOperations,
      Viewport.Operation.IsLock])

/-- Nothing that a request asks for both moves the view and locks or unlocks it. -/
theorem operations_cases (s : Session) (request : Request) :
    (∀ operation ∈ s.operations request, ¬ operation.IsLock) ∨
      ∀ operation ∈ s.operations request, ¬ operation.IsMove := by
  cases request with
  | input event =>
    refine Or.inl fun operation hoperation ↦ ?_
    obtain ⟨action, -, hoperation⟩ := List.mem_flatMap.mp hoperation
    exact action.not_isLock operation hoperation
  | key key modifiers =>
    dsimp only [operations]
    cases Shortcut.resolve? key modifiers with
    | none => exact Or.inl (by simp)
    | some shortcut => exact s.shortcutOperations_cases shortcut
  | setLocked locked => exact Or.inr (s.not_isMove_lockOperations locked)
  | toggleLock => exact Or.inr (s.not_isMove_lockOperations _)
  | load text =>
    dsimp only [operations]
    split_ifs
    · exact Or.inl (by simp [Viewport.Operation.IsLock])
    · exact Or.inl (by simp)
  | _ => exact Or.inl (by simp [operations, zoomOperations, fitOperations,
      Viewport.Operation.IsLock])

end Session

end LayerCanvas
