import LayerCanvas.Viewport.Basic
import Mathlib.Tactic.SplitIfs

/-!
What can be done to a view. Operations come in any order and with any numbers, and one that is
refused leaves the view as it was. The transform, the lock and the pan are three matters: an
operation that moves the transform leaves the lock alone, and the other way round, and none that
moves it does so while the view is locked.
-/

set_option autoImplicit false
set_option relaxedAutoImplicit false

namespace LayerCanvas.Viewport

/-- What can be done to a view. -/
inductive Operation (C : Type := Float32) (R : Type := Float)
  | setTransform (t : Transform C)
  | zoom (direction : ZoomDirection) (center : Option (Point C))
  | panBy (dx dy : C)
  | reset
  /-- Shows some nodes in a view of a given size. -/
  | fit (nodes : List (Node C R)) (width height : C)
  | startPan (pointer : Point C)
  | updatePan (pointer : Point C)
  | endPan
  | setLocked (locked : Bool)

section

variable {C R : Type}

/-- Whether an operation can move the transform. -/
def Operation.IsMove : Operation C R → Prop
  | .setTransform _ | .zoom _ _ | .panBy _ _ | .reset | .fit _ _ _ | .updatePan _ => True
  | .startPan _ | .endPan | .setLocked _ => False

/-- Whether an operation locks or unlocks. -/
def Operation.IsLock : Operation C R → Prop
  | .setLocked _ => True
  | _ => False

variable [Scalar C]

/-- The view after an operation. -/
def apply (v : Viewport C) : Operation C R → Viewport C
  | .setTransform t => v.setTransform t
  | .zoom direction center => (v.zoom? direction center).getD v
  | .panBy dx dy => v.panBy dx dy
  | .reset => v.reset
  | .fit nodes width height => (v.fit? nodes width height).getD v
  | .startPan pointer => (v.startPan? pointer).getD v
  | .updatePan pointer => v.updatePan pointer
  | .endPan => v.endPan
  | .setLocked locked => v.setLocked locked

/-- The view after several operations. -/
def applyAll (v : Viewport C) (operations : List (Operation C R)) : Viewport C :=
  operations.foldl apply v

theorem applyAll_append (v : Viewport C) (first second : List (Operation C R)) :
    v.applyAll (first ++ second) = (v.applyAll first).applyAll second := List.foldl_append

/-! ### One operation -/

variable {v v' : Viewport C}

/-- Zooming moves the transform alone. -/
theorem zoom?_frame {direction : ZoomDirection} {center : Option (Point C)}
    (h : v.zoom? direction center = some v') : v'.locked = v.locked ∧ v'.pan = v.pan := by
  unfold zoom? at h
  dsimp only at h
  split_ifs at h
  cases h
  exact ⟨rfl, rfl⟩

/-- The transform after a zoom. The offset moves along with the scale that is reached. -/
theorem transform_of_zoom? {direction : ZoomDirection} {center : Option (Point C)}
    (h : v.zoom? direction center = some v') :
    v'.transform.scale =
        v.clampScale (direction.advance v.transform.scale v.config.scaleStep) ∧
      (center = none → v'.transform.offset = v.transform.offset) ∧
      ∀ c ∈ center, v'.transform.offset =
        ⟨c.x - (c.x - v.transform.offset.x) * (v'.transform.scale / v.transform.scale),
          c.y - (c.y - v.transform.offset.y) * (v'.transform.scale / v.transform.scale)⟩ := by
  unfold zoom? at h
  dsimp only at h
  split_ifs at h
  cases h
  refine ⟨rfl, ?_, ?_⟩
  · rintro rfl
    rfl
  · rintro c ⟨⟩
    rfl

/-- Fitting moves the transform alone. -/
theorem fit?_frame {nodes : List (Node C R)} {width height : C}
    (h : v.fit? nodes width height = some v') : v'.locked = v.locked ∧ v'.pan = v.pan := by
  unfold fit? at h
  split_ifs at h
  obtain ⟨bounds, -, rfl⟩ := Option.map_eq_some_iff.mp h
  exact ⟨rfl, rfl⟩

theorem reset_frame (v : Viewport C) : v.reset.locked = v.locked ∧ v.reset.pan = v.pan := by
  unfold reset
  split_ifs <;> exact ⟨rfl, rfl⟩

theorem updatePan_frame (v : Viewport C) (pointer : Point C) :
    (v.updatePan pointer).locked = v.locked ∧ (v.updatePan pointer).pan = v.pan := by
  unfold updatePan
  split_ifs
  · exact ⟨rfl, rfl⟩
  · split <;> exact ⟨rfl, rfl⟩

/-- An operation that can move the transform leaves the lock and the pan alone. -/
theorem apply_frame (v : Viewport C) {operation : Operation C R} (h : operation.IsMove) :
    (v.apply operation).locked = v.locked ∧ (v.apply operation).pan = v.pan := by
  cases operation with
  | zoom direction center =>
    dsimp only [apply]
    cases hview : v.zoom? direction center with
    | none => exact ⟨rfl, rfl⟩
    | some v' => exact zoom?_frame hview
  | fit nodes width height =>
    dsimp only [apply]
    cases hview : v.fit? nodes width height with
    | none => exact ⟨rfl, rfl⟩
    | some v' => exact fit?_frame hview
  | setTransform t =>
    dsimp only [apply, setTransform]
    split_ifs <;> exact ⟨rfl, rfl⟩
  | panBy dx dy =>
    dsimp only [apply, panBy]
    split_ifs <;> exact ⟨rfl, rfl⟩
  | reset => exact v.reset_frame
  | updatePan pointer => exact v.updatePan_frame pointer
  | startPan pointer => exact h.elim
  | endPan => exact h.elim
  | setLocked locked => exact h.elim

/-- An operation that cannot move the transform does not. -/
theorem transform_apply (v : Viewport C) {operation : Operation C R} (h : ¬ operation.IsMove) :
    (v.apply operation).transform = v.transform := by
  cases operation with
  | startPan pointer =>
    dsimp only [apply, startPan?]
    split_ifs <;> rfl
  | endPan => rfl
  | setLocked locked => rfl
  | _ => exact absurd trivial h

/-- An operation that neither locks nor unlocks leaves the lock alone. -/
theorem locked_apply (v : Viewport C) {operation : Operation C R} (h : ¬ operation.IsLock) :
    (v.apply operation).locked = v.locked := by
  by_cases hmove : operation.IsMove
  · exact (v.apply_frame hmove).1
  · cases operation with
    | startPan pointer =>
      dsimp only [apply, startPan?]
      split_ifs <;> rfl
    | endPan => rfl
    | setLocked locked => exact absurd trivial h
    | _ => exact absurd trivial hmove

/-- Whatever is done to a locked view, it does not move. -/
theorem transform_apply_of_locked (hlocked : v.locked = true) (operation : Operation C R) :
    (v.apply operation).transform = v.transform := by
  cases operation with
  | setTransform t => exact congrArg transform (if_pos hlocked)
  | zoom direction center => simp [apply, zoom?, hlocked]
  | panBy dx dy => exact congrArg transform (if_pos hlocked)
  | reset => exact congrArg transform (if_pos hlocked)
  | fit nodes width height => simp [apply, fit?, hlocked]
  | updatePan pointer => exact congrArg transform (if_pos hlocked)
  | _ => exact v.transform_apply id

/-! ### Several operations -/

/-- What every allowed operation keeps, a list of allowed operations keeps. -/
theorem applyAll_induction {P : Viewport C → Prop} {Q : Operation C R → Prop}
    (hstep : ∀ v operation, Q operation → P v → P (v.apply operation))
    (operations : List (Operation C R)) (hall : ∀ operation ∈ operations, Q operation)
    (hv : P v) : P (v.applyAll operations) := by
  induction operations generalizing v with
  | nil => exact hv
  | cons operation rest ih =>
    exact ih (fun other hother ↦ hall other (List.mem_cons_of_mem _ hother))
      (hstep v operation (hall operation List.mem_cons_self) hv)

theorem locked_applyAll (v : Viewport C) {operations : List (Operation C R)}
    (h : ∀ operation ∈ operations, ¬ operation.IsLock) :
    (v.applyAll operations).locked = v.locked :=
  applyAll_induction (P := fun w ↦ w.locked = v.locked)
    (fun w _ hop hw ↦ (w.locked_apply hop).trans hw) operations h rfl

theorem transform_applyAll (v : Viewport C) {operations : List (Operation C R)}
    (h : ∀ operation ∈ operations, ¬ operation.IsMove) :
    (v.applyAll operations).transform = v.transform :=
  applyAll_induction (P := fun w ↦ w.transform = v.transform)
    (fun w _ hop hw ↦ (w.transform_apply hop).trans hw) operations h rfl

/-- A pan goes by where the pointer is and where the pan began, and not by where the view was moved
to in between. -/
theorem updatePan_updatePan (v : Viewport C) (p q : Point C) :
    (v.updatePan p).updatePan q = v.updatePan q := by
  unfold updatePan
  by_cases hlocked : v.locked = true
  · simp [hlocked]
  · cases hpan : v.pan <;> simp [hlocked, hpan]

theorem updatePan_applyAll (v : Viewport C) (pointers : List (Point C)) (q : Point C) :
    (v.applyAll (pointers.map (.updatePan (R := R)))).updatePan q = v.updatePan q := by
  induction pointers generalizing v with
  | nil => rfl
  | cons p rest ih => exact (ih (v.updatePan p)).trans (v.updatePan_updatePan p q)

/-- A locked view does not move under operations that leave it locked. -/
theorem transform_applyAll_of_locked (hlocked : v.locked = true)
    {operations : List (Operation C R)} (h : ∀ operation ∈ operations, ¬ operation.IsLock) :
    (v.applyAll operations).transform = v.transform := by
  have hkept : (v.applyAll operations).locked = true ∧
      (v.applyAll operations).transform = v.transform :=
    applyAll_induction (P := fun w ↦ w.locked = true ∧ w.transform = v.transform)
      (fun w operation hop ⟨hw, htransform⟩ ↦ ⟨(w.locked_apply hop).trans hw,
        (transform_apply_of_locked hw operation).trans htransform⟩) operations h ⟨hlocked, rfl⟩
  exact hkept.2

end

end LayerCanvas.Viewport
