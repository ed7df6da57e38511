import LayerCanvas.Proofs.Session.View

/-!
Who knows of a pan. The gesture machine has a state for it and the view keeps its anchor, and the
two hear of each other only through actions. The machine never pans without an anchor, and a locked
view has none. The other way round there is one gap: while the canvas is panned with one button, a
press of the primary button on a dot, a node or a delete target takes up another gesture and tells
the view nothing, so that the anchor stays. This press is the only way to part the two.
-/

set_option autoImplicit false
set_option relaxedAutoImplicit false

namespace LayerCanvas

/-- Whether what lies under the pointer takes up a press of the primary button. -/
def Hit.takesPress : Hit → Bool
  | .dot d => d.kind = .output
  | .node _ _ | .deleteTarget _ => true
  | .canvas => false

/-- Whether the view pans after an action. -/
def Action.pansAfter (locked : Bool) (panning : Bool) : Action → Bool
  | .startPan _ => panning || !locked
  | .endPan => false
  | _ => panning

/-- What a session tells of a pan: the gesture, whether the view is locked, and whether it pans. -/
structure Stance where
  gesture : Gesture
  locked : Bool
  panning : Bool

namespace Stance

/-- A stance in which the machine does not pan without the view, and a locked view does not pan. -/
structure Steady (a : Stance) : Prop where
  panning : a.gesture = .panning → a.panning = true
  locked : a.locked = true → a.panning = false

/-- What a request can do to a stance, if it overtakes a pan and if it does not. -/
inductive Shifts (overtakes : Prop) (a b : Stance) : Prop
  | same (gesture : b.gesture = .panning ↔ a.gesture = .panning) (panning : b.panning = a.panning)
    (locked : b.locked = true → a.locked = true)
  | starts (gesture : b.gesture = .panning) (panning : b.panning = true) (locked : b.locked = false)
  | ends (gesture : b.gesture ≠ .panning) (panning : b.panning = false)
  | overtaken (h : overtakes) (gesture : b.gesture ≠ .panning) (panning : b.panning = a.panning)
    (locked : b.locked = true → a.locked = true)

variable {overtakes : Prop} {a b : Stance}

theorem Shifts.of_eq (h : b = a) : Shifts overtakes a b := by
  subst h
  exact .same Iff.rfl rfl id

theorem Shifts.imp {overtakes' : Prop} (h : overtakes → overtakes')
    (hshifts : Shifts overtakes a b) : Shifts overtakes' a b := by
  cases hshifts with
  | same gesture panning locked => exact .same gesture panning locked
  | starts gesture panning locked => exact .starts gesture panning locked
  | ends gesture panning => exact .ends gesture panning
  | overtaken h' gesture panning locked => exact .overtaken (h h') gesture panning locked

theorem Steady.shifts (h : a.Steady) (hshifts : Shifts overtakes a b) : b.Steady := by
  cases hshifts with
  | same gesture panning locked =>
    exact ⟨fun hb ↦ panning.trans (h.panning (gesture.mp hb)),
      fun hb ↦ panning.trans (h.locked (locked hb))⟩
  | starts gesture panning locked =>
    exact ⟨fun _ ↦ panning, fun hb ↦ absurd (locked.symm.trans hb) Bool.false_ne_true⟩
  | ends gesture panning => exact ⟨fun hb ↦ absurd hb gesture, fun _ ↦ panning⟩
  | overtaken h' gesture panning locked =>
    exact ⟨fun hb ↦ absurd hb gesture, fun hb ↦ panning.trans (h.locked (locked hb))⟩

/-- The two parts of a stance go on agreeing unless the pan is overtaken. -/
theorem Shifts.agree (hshifts : Shifts overtakes a b) (hnot : ¬ overtakes)
    (hagree : a.panning = true ↔ a.gesture = .panning) :
    b.panning = true ↔ b.gesture = .panning := by
  cases hshifts with
  | same gesture panning locked => rw [panning, hagree, gesture]
  | starts gesture panning locked => simp [gesture, panning]
  | ends gesture panning => simp [gesture, panning]
  | overtaken h gesture panning locked => exact absurd h hnot

end Stance

/-! ### The machine -/

namespace Gesture

/-- The stance after the actions that the machine asks for. -/
def stanceAfter (answer : Gesture × List Action) (locked panning : Bool) : Stance :=
  ⟨answer.1, locked, answer.2.foldl (Action.pansAfter locked) panning⟩

variable {g : Gesture} {view : Viewport} {panning : Bool}

/-- A pan begins unless the view is locked, and then there is none. -/
theorem shifts_beginPan {overtakes : Prop} (h : Stance.Steady ⟨g, view.locked, panning⟩)
    (p : Point) : Stance.Shifts overtakes ⟨g, view.locked, panning⟩
      (stanceAfter (beginPan p view) view.locked panning) := by
  unfold beginPan
  split_ifs with hlocked
  · exact .ends nofun (h.locked hlocked)
  · have hunlocked : view.locked = false := Bool.eq_false_iff.mpr hlocked
    exact .starts rfl (by simp [stanceAfter, Action.pansAfter, hunlocked]) hunlocked

/-- A press that something under the pointer takes up leaves the view as it is. -/
theorem press_of_takesPress {hit : Hit} (hhit : hit.takesPress = true)
    (hg : g.isConnecting = false) (p : Point) (modifiers : Modifiers) (view : Viewport)
    (panning : Bool) :
    (g.press p .primary modifiers hit view).1 ≠ .panning ∧
      (stanceAfter (g.press p .primary modifiers hit view) view.locked panning).panning =
        panning := by
  cases hit with
  | dot d =>
    have hkind : d.kind = .output := by simpa [Hit.takesPress] using hhit
    simp [press, hg, hkind, stanceAfter]
  | node id origin => simp [press, hg, stanceAfter, Action.pansAfter]
  | deleteTarget id => simp [press, hg, stanceAfter, Action.pansAfter]
  | canvas => cases hhit

theorem shifts_press (h : Stance.Steady ⟨g, view.locked, panning⟩) (p : Point) (button : Button)
    (modifiers : Modifiers) (hit : Hit) :
    Stance.Shifts (g = .panning ∧ button = .primary ∧ hit.takesPress = true)
      ⟨g, view.locked, panning⟩
      (stanceAfter (g.press p button modifiers hit view) view.locked panning) := by
  by_cases htaken : g.isConnecting = false ∧ button = .primary ∧ hit.takesPress = true
  · obtain ⟨hg, rfl, hhit⟩ := htaken
    obtain ⟨hgesture, hpanning⟩ := press_of_takesPress hhit hg p modifiers view panning
    by_cases hpan : g = .panning
    · exact .overtaken ⟨hpan, rfl, hhit⟩ hgesture hpanning id
    · exact .same (iff_of_false hgesture hpan) hpanning id
  · unfold press
    dsimp only
    split_ifs with hconnecting hempty hpan hbutton
    · refine .same (iff_of_false nofun ?_) rfl id
      rintro rfl
      cases hconnecting
    · exact .of_eq rfl
    · exact shifts_beginPan h p
    · exact .of_eq rfl
    · have hhit : hit.takesPress = false := by simp_all
      cases hit with
      | dot d =>
        have hkind : d.kind ≠ .output := by simpa [Hit.takesPress] using hhit
        exact .of_eq (by simp [stanceAfter, hkind])
      | canvas => exact shifts_beginPan h p
      | _ => cases hhit

theorem shifts_drag {overtakes : Prop} (g : Gesture) (p : Point) (view : Viewport)
    (panning : Bool) : Stance.Shifts overtakes ⟨g, view.locked, panning⟩
      (stanceAfter (g.drag p view) view.locked panning) := by
  cases g with
  | connecting source pointer => exact .same (iff_of_false nofun nofun) rfl id
  | _ => exact .of_eq rfl

/-- A release ends the gesture, and the pan with it. -/
theorem shifts_release {overtakes : Prop} (g : Gesture) (p : Point) (hit : Hit) (view : Viewport)
    (panning : Bool) : Stance.Shifts overtakes ⟨g, view.locked, panning⟩
      (stanceAfter (g.release p hit view) view.locked panning) := by
  cases g with
  | panning => exact .ends nofun rfl
  | connecting source pointer =>
    refine .same (iff_of_false nofun nofun) ?_ id
    cases hit with
    | dot target =>
      dsimp only [stanceAfter, release]
      split_ifs <;> rfl
    | _ => rfl
  | _ => exact .same (iff_of_false nofun nofun) rfl id

theorem shifts_turn {overtakes : Prop} (g : Gesture) (p : Point) (amount : Float32)
    (view : Viewport) (panning : Bool) : Stance.Shifts overtakes ⟨g, view.locked, panning⟩
      (stanceAfter (g, turn p amount view) view.locked panning) := by
  refine .of_eq ?_
  unfold turn
  split_ifs <;> rfl

/-- Giving up a gesture ends a pan. -/
theorem shifts_cancel {overtakes : Prop} (g : Gesture) (locked panning : Bool) :
    Stance.Shifts overtakes ⟨g, locked, panning⟩ (stanceAfter g.cancel locked panning) := by
  by_cases hg : g = .panning
  · subst hg
    exact .ends nofun rfl
  · exact .same (iff_of_false nofun hg) (by simp [stanceAfter, cancel, hg]) id

end Gesture

/-! ### The session -/

namespace Session

variable {s s' : Session}

/-- What a session tells of a pan. -/
def stance (s : Session) : Stance := ⟨s.gesture, s.view.locked, s.view.isPanning⟩

theorem stance_of_frame (hgesture : s'.gesture = s.gesture)
    (hview : s'.view.locked = s.view.locked ∧ s'.view.pan = s.view.pan) : s'.stance = s.stance := by
  rw [stance, stance, Viewport.isPanning, Viewport.isPanning, hgesture, hview.1, hview.2]

/-- The stance is told from the pose. -/
theorem stance_of_pose (h : s'.pose = s.pose) : s'.stance = s.stance := by
  obtain ⟨hgesture, hview⟩ := Prod.mk.inj h
  rw [stance, stance, hgesture, hview]

theorem stance_zoom? {direction : ZoomDirection} (h : s.zoom? direction = some s') :
    s'.stance = s.stance := by
  obtain ⟨view, hview, rfl⟩ := Option.map_eq_some_iff.mp h
  exact stance_of_frame rfl (Viewport.zoom?_frame hview)

theorem stance_fit? (h : s.fit? = some s') : s'.stance = s.stance := by
  obtain ⟨view, hview, rfl⟩ := Option.map_eq_some_iff.mp h
  exact stance_of_frame rfl (Viewport.fit?_frame hview)

/-- An action is heard by the view alone. -/
theorem stance_apply (s : Session) (action : Action) :
    (s.apply action).stance =
      ⟨s.gesture, s.view.locked, action.pansAfter s.view.locked s.view.isPanning⟩ := by
  cases action with
  | startPan pointer =>
    unfold apply Viewport.startPan?
    cases hlocked : s.view.locked <;> simp [stance, Action.pansAfter, hlocked, Viewport.isPanning]
  | updatePan pointer => exact stance_of_frame rfl (s.view.updatePan_frame pointer)
  | zoom direction center =>
    refine stance_of_frame rfl ?_
    dsimp only [apply]
    cases hview : s.view.zoom? direction (some center) with
    | none => exact ⟨rfl, rfl⟩
    | some view => exact Viewport.zoom?_frame hview
  | connect source target => exact stance_of_pose (pose_made fun _ ↦ pose_connect?)
  | deleteConnection id => exact stance_of_pose (frame_getD fun _ ↦ pose_deleteConnection?)
  | _ => rfl

/-- What becomes of the stance when the machine's answer is taken. -/
theorem stance_applyAll (s : Session) (actions : List Action) :
    (s.applyAll actions).stance =
      Gesture.stanceAfter (s.gesture, actions) s.view.locked s.view.isPanning := by
  unfold applyAll
  induction actions generalizing s with
  | nil => rfl
  | cons action actions ih =>
    have happly := s.stance_apply action
    simp only [stance, Stance.mk.injEq] at happly
    obtain ⟨hgesture, hlocked, hpanning⟩ := happly
    rw [List.foldl_cons, ih, hgesture, hlocked, hpanning]
    rfl

/-- A press of the primary button, while the view is panned, on something that takes it up. -/
def overtakesPan (s : Session) : Request → Bool
  | .input (.pointerDown p .primary _) => s.gesture = .panning && (s.hit p).takesPress
  | _ => false

theorem shifts_handle (h : s.stance.Steady) (event : InputEvent) :
    Stance.Shifts (s.overtakesPan (.input event) = true) s.stance (s.handle event).stance := by
  unfold handle
  cases event with
  | pointerDown p button modifiers =>
    dsimp only
    rw [stance_applyAll]
    have hshifts := Gesture.shifts_press h p button modifiers (s.hit p)
    refine hshifts.imp ?_
    rintro ⟨hg, rfl, hhit⟩
    exact Bool.and_eq_true_iff.mpr ⟨decide_eq_true hg, hhit⟩
  | pointerMove p modifiers =>
    dsimp only
    rw [stance_applyAll]
    split_ifs <;> exact Gesture.shifts_drag s.gesture p s.view s.view.isPanning
  | pointerUp p button modifiers =>
    dsimp only
    rw [stance_applyAll]
    exact Gesture.shifts_release s.gesture p (s.hit p) s.view s.view.isPanning
  | wheel p amount =>
    dsimp only
    rw [stance_applyAll]
    exact Gesture.shifts_turn s.gesture p amount s.view s.view.isPanning

variable {overtakes : Prop}

theorem shifts_cancelGesture (s : Session) :
    Stance.Shifts overtakes s.stance s.cancelGesture.stance := by
  unfold cancelGesture
  rw [stance_applyAll]
  exact Gesture.shifts_cancel s.gesture s.view.locked s.view.isPanning

/-- Locking ends a pan on both sides. -/
theorem shifts_setLocked (s : Session) (locked : Bool) :
    Stance.Shifts overtakes s.stance (s.setLocked locked).stance := by
  unfold setLocked
  cases locked with
  | false => exact .same Iff.rfl rfl nofun
  | true =>
    by_cases hg : s.gesture = .panning
    · simp only [hg, and_self, if_true]
      unfold cancelGesture
      rw [stance_applyAll]
      exact .ends nofun (by simp [Gesture.stanceAfter, Gesture.cancel, Action.pansAfter])
    · simp only [hg, and_false, if_false]
      exact .ends hg rfl

theorem shifts_runShortcut (s : Session) (shortcut : Shortcut) :
    Stance.Shifts overtakes s.stance (s.runShortcut shortcut).stance := by
  cases shortcut with
  | zoomIn => exact .of_eq (frame_getD fun _ ↦ stance_zoom?)
  | zoomOut => exact .of_eq (frame_getD fun _ ↦ stance_zoom?)
  | resetView => exact .of_eq (stance_of_frame rfl s.view.reset_frame)
  | fitView => exact .of_eq (frame_getD fun _ ↦ stance_fit?)
  | toggleLock => exact s.shifts_setLocked _
  | deleteSelected => exact .of_eq (stance_of_pose (frame_getD fun _ ↦ pose_deleteSelected?))
  | cancel => exact s.shifts_cancelGesture

/-- Every request keeps the stance, begins a pan, ends it, or overtakes it. -/
theorem shifts_serve (h : s.stance.Steady) (request : Request) :
    Stance.Shifts (s.overtakesPan request = true) s.stance (s.serve request).stance := by
  -- Apart from events and shortcuts, only the lock, clearing and loading touch the stance.
  cases request with
  | input event => exact shifts_handle h event
  | key key modifiers =>
    dsimp only [serve, key?]
    cases Shortcut.resolve? key modifiers with
    | none => exact .of_eq rfl
    | some shortcut => exact s.shifts_runShortcut shortcut
  | drop payload p => exact .of_eq (stance_of_pose (pose_made fun _ ↦ pose_drop?))
  | zoom direction => exact .of_eq (frame_getD fun _ ↦ stance_zoom?)
  | fit => exact .of_eq (frame_getD fun _ ↦ stance_fit?)
  | resetView => exact .of_eq (stance_of_frame rfl s.view.reset_frame)
  | setLocked locked => exact s.shifts_setLocked locked
  | toggleLock => exact s.shifts_setLocked _
  | connect source target => exact .of_eq (stance_of_pose (pose_made fun _ ↦ pose_connect?))
  | deleteConnection id => exact .of_eq (stance_of_pose (frame_getD fun _ ↦ pose_deleteConnection?))
  | deleteNode id => exact .of_eq (stance_of_pose (frame_getD fun _ ↦ pose_deleteNode?))
  | deleteSelected => exact .of_eq (stance_of_pose (frame_getD fun _ ↦ pose_deleteSelected?))
  | clear =>
    have hstance : s.clear.stance = ⟨.idle, s.view.locked, false⟩ :=
      stance_of_pose (pose_schedule _)
    exact .ends (by simp [serve, hstance]) (by simp [serve, hstance])
  | setParam id name value => exact .of_eq (stance_of_pose (s.pose_setParam id name value))
  | load text =>
    dsimp only [serve, load]
    cases s.graph.loadText text with
    | error fault => exact .of_eq rfl
    | ok graph => exact .ends nofun rfl
  | _ => exact .of_eq rfl

theorem steady_run (config : EditorConfig) (requests : List Request) :
    (run config requests).stance.Steady :=
  run_induction (P := fun s ↦ s.stance.Steady) ⟨nofun, nofun⟩
    (fun _ request h ↦ h.shifts (shifts_serve h request)) requests

/-- The press that overtakes a pan leaves the anchor without its gesture. -/
theorem serve_of_overtakesPan (h : s.stance.Steady) {request : Request}
    (hovertakes : s.overtakesPan request = true) :
    (s.serve request).gesture ≠ .panning ∧ (s.serve request).view.isPanning = true := by
  unfold overtakesPan at hovertakes
  split at hovertakes
  next p modifiers =>
    obtain ⟨hg, hhit⟩ := Bool.and_eq_true_iff.mp hovertakes
    have hg : s.gesture = .panning := of_decide_eq_true hg
    have hstance : (s.serve (.input (.pointerDown p .primary modifiers))).stance =
        Gesture.stanceAfter (s.gesture.press p .primary modifiers (s.hit p) s.view)
          s.view.locked s.view.isPanning := stance_applyAll _ _
    have hidle : s.gesture.isConnecting = false := by rw [hg]; rfl
    obtain ⟨hgesture, hpanning⟩ :=
      Gesture.press_of_takesPress hhit hidle p modifiers s.view s.view.isPanning
    rw [← hstance] at hpanning
    exact ⟨fun hpan ↦ hgesture ((congrArg Stance.gesture hstance).symm.trans hpan),
      hpanning.trans (h.panning hg)⟩
  next => cases hovertakes

/-- After every run the machine pans only if the view does. They agree all through a run if and only
if none of its requests is a press of the primary button, during a pan, on something that takes it
up. -/
theorem pan_agrees_unless_overtaken (config : EditorConfig) (requests : List Request) :
    ((run config requests).gesture = .panning → (run config requests).view.isPanning = true) ∧
    ((∀ first, first <+: requests →
        ((run config first).view.isPanning = true ↔ (run config first).gesture = .panning)) ↔
      ∀ first request, first ++ [request] <+: requests →
        (run config first).overtakesPan request = false) := by
  refine ⟨(steady_run config requests).panning, fun hagree first request hfirst ↦ ?_,
    fun hnone first hfirst ↦ ?_⟩
  · by_contra hovertakes
    rw [Bool.not_eq_false] at hovertakes
    obtain ⟨hgesture, hpanning⟩ := serve_of_overtakesPan (steady_run config first) hovertakes
    rw [← run_concat] at hgesture hpanning
    exact hgesture ((hagree _ hfirst).mp hpanning)
  · -- One request after the other; what came before is a beginning of the run as well.
    induction first using List.reverseRecOn with
    | nil => exact iff_of_false nofun nofun
    | append_singleton first request ih =>
      rw [run_concat]
      refine Stance.Shifts.agree (shifts_serve (steady_run config first) request) ?_
        (ih ((List.prefix_append first [request]).trans hfirst))
      rw [hnone first request hfirst]
      exact Bool.false_ne_true

/-- A press of the middle button pans. -/
theorem pan_agrees_unless_overtaken_pressed :
    (run .standard [.input (.pointerDown ⟨0, 0⟩ .middle {})]).gesture = .panning ∧
      (run .standard [.input (.pointerDown ⟨0, 0⟩ .middle {})]).view.isPanning = true := by
  have hgesture :
      (run .standard [.input (.pointerDown ⟨0, 0⟩ .middle {})]).gesture = .panning := by
    decide +kernel
  exact ⟨hgesture, (pan_agrees_unless_overtaken _ _).1 hgesture⟩

/-- A node is dropped, the canvas is panned with the middle button, and then the node is pressed and
released: no gesture is left, but the view still pans. -/
theorem pan_outlives_gesture :
    ∃ requests, (run .standard requests).gesture = .idle ∧
      (run .standard requests).view.isPanning = true := by
  let payload : String := "\x7b\"type\":\"Input\",\"label\":\"\"\x7d"
  exact ⟨[.drop payload ⟨0, 0⟩, .input (.pointerDown ⟨300, 300⟩ .middle {}),
    .input (.pointerDown ⟨0, 0⟩ .primary {}), .input (.pointerUp ⟨0, 0⟩ .primary {})],
    by decide +kernel, by decide +kernel⟩

end Session

end LayerCanvas
