import LayerCanvas.Config.Basic
import Mathlib.Logic.Basic

/-!
The check of settings as a list of checks. Each of them either passes or has an error of its own,
and the settings are rejected with the error of the first one that does not pass.
-/

set_option autoImplicit false
set_option relaxedAutoImplicit false

namespace LayerCanvas

/-- The settings, each of which is a number. -/
inductive Setting
  | nodeWidth
  | nodeHeight
  | creationMs
  | deletionMs
  | pointRadius
  | deleteRadius
  | minScale
  | maxScale
  | scaleStep
  | panSensitivity
  | fitPadding
  | fitMargin
  deriving DecidableEq

/-- The name that a setting is written with. -/
def Setting.name : Setting → String
  | nodeWidth => "nodeWidth"
  | nodeHeight => "nodeHeight"
  | creationMs => "creationMs"
  | deletionMs => "deletionMs"
  | pointRadius => "pointRadius"
  | deleteRadius => "deleteRadius"
  | minScale => "minScale"
  | maxScale => "maxScale"
  | scaleStep => "scaleStep"
  | panSensitivity => "panSensitivity"
  | fitPadding => "fitPadding"
  | fitMargin => "fitMargin"

/-- Whether a setting is one of the limits of the view. -/
def Setting.isOfView : Setting → Bool
  | nodeWidth | nodeHeight | creationMs | deletionMs | pointRadius | deleteRadius => false
  | minScale | maxScale | scaleStep | panSensitivity | fitPadding | fitMargin => true

/-- A number in either of two precisions. -/
inductive Measure (C : Type := Float32) (R : Type := Float) where
  | coarse (x : C)
  | fine (x : R)

variable {C R : Type}

/-- The value of a setting. -/
def EditorConfig.value (c : EditorConfig C R) : Setting → Measure C R
  | .nodeWidth => .coarse c.nodeWidth
  | .nodeHeight => .coarse c.nodeHeight
  | .creationMs => .fine c.creationMs
  | .deletionMs => .fine c.deletionMs
  | .pointRadius => .coarse c.pointRadius
  | .deleteRadius => .coarse c.deleteRadius
  | .minScale => .coarse c.view.minScale
  | .maxScale => .coarse c.view.maxScale
  | .scaleStep => .coarse c.view.scaleStep
  | .panSensitivity => .coarse c.view.panSensitivity
  | .fitPadding => .coarse c.view.fitPadding
  | .fitMargin => .coarse c.view.fitMargin

variable [Scalar C] [Scalar R] [Precision C R]

/-- The value in the finer precision. -/
def Measure.widen : Measure C R → R
  | .coarse x => Precision.widen x
  | .fine x => x

/-- What settings are checked for. -/
inductive Check
  /-- A setting is finite and greater than zero. -/
  | positive (s : Setting)
  /-- The limits of the scale are in order. -/
  | scales
  /-- The space around fitted content is finite and not negative. -/
  | padding

namespace Check

/-- The checks, in the order in which they are made. -/
def order : List Check :=
  [.positive .nodeWidth, .positive .nodeHeight, .positive .creationMs, .positive .deletionMs,
    .positive .pointRadius, .positive .deleteRadius, .positive .minScale, .positive .maxScale,
    .scales, .positive .scaleStep, .positive .panSensitivity, .positive .fitMargin, .padding]

/-- Whether settings pass a check. -/
def passes (c : EditorConfig C R) : Check → Bool
  | .positive s => Scalar.isPositive (c.value s).widen
  | .scales => !decide (c.view.maxScale < c.view.minScale)
  | .padding => Scalar.isFinite c.view.fitPadding && !decide (c.view.fitPadding < 0)

/-- What settings are rejected with when they do not pass a check. -/
def error (c : EditorConfig C R) : Check → ConfigError C R
  | .positive s => .notPositive s.name (c.value s).widen
  | .scales => .scaleRange c.view.minScale c.view.maxScale
  | .padding => .notPositive Setting.fitPadding.name (c.value .fitPadding).widen

/-- One check. -/
def run (c : EditorConfig C R) (check : Check) : Except (ConfigError C R) Unit :=
  if check.passes c then .ok () else .error (check.error c)

/-- Checks that are made one after another end with the first that does not pass. -/
theorem forM_run (c : EditorConfig C R) (checks : List Check) :
    forM checks (run c) =
      match checks.find? fun check ↦ !check.passes c with
      | none => .ok ()
      | some check => .error (check.error c) := by
  induction checks with
  | nil => rfl
  | cons check checks ih =>
    rw [List.forM_cons, List.find?_cons, run]
    cases h : check.passes c with
    | true => exact ih
    | false => rfl

end Check

/-- Settings are rejected with the error of the first check that they do not pass. -/
theorem EditorConfig.validate_eq (c : EditorConfig C R) :
    c.validate =
      match Check.order.find? fun check ↦ !check.passes c with
      | none => .ok ()
      | some check => .error (check.error c) := by
  have hpositive (s : Setting) :
      Check.run c (.positive s) = requirePositive s.name (c.value s).widen := rfl
  have hpadding : (Check.run c .padding >>= fun _ ↦ pure PUnit.unit) =
      if !Scalar.isFinite c.view.fitPadding || decide (c.view.fitPadding < 0) then
        throw (.notPositive "fitPadding" (Precision.widen c.view.fitPadding))
      else pure () := by
    rw [Check.run, Check.passes]
    cases Scalar.isFinite c.view.fitPadding <;> cases decide (c.view.fitPadding < 0) <;> rfl
  rw [← Check.forM_run]
  unfold validate ViewConfig.validate Check.order
  simp only [List.forM_cons, List.forM_nil, hpositive, hpadding]
  by_cases hordered : c.view.maxScale < c.view.minScale
  · have hscales : Check.run c .scales =
        .error (.scaleRange c.view.minScale c.view.maxScale) := by
      rw [Check.run, Check.passes, decide_eq_true hordered]
      rfl
    rw [if_pos hordered, hscales]
    rfl
  · have hscales : Check.run c .scales = .ok () := by
      rw [Check.run, Check.passes, decide_eq_false hordered]
      rfl
    rw [if_neg hordered, hscales]
    rfl

/-- Settings are accepted when they pass every check. -/
theorem EditorConfig.validate_eq_ok_iff {c : EditorConfig C R} :
    c.validate = .ok () ↔ ∀ check ∈ Check.order, check.passes c = true := by
  rw [validate_eq]
  cases h : Check.order.find? fun check ↦ !check.passes c with
  | none => simpa using List.find?_eq_none.mp h
  | some check =>
    refine iff_of_false nofun fun hall ↦ ?_
    have hfails := List.find?_some h
    rw [hall check (List.mem_of_find?_eq_some h)] at hfails
    cases hfails

end LayerCanvas
