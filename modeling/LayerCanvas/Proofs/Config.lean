import LayerCanvas.Proofs.Config.Check

/-!
What settings have that pass their check. The check is a chain, so what passes it has passed every
link.
-/

set_option autoImplicit false
set_option relaxedAutoImplicit false

namespace LayerCanvas

variable {C R : Type} [Scalar C] [Scalar R] [Precision C R]

/-- A check in front of others passes with them. -/
theorem andThen_eq_ok_iff {ε β : Type} {first : Except ε Unit} {rest : Unit → Except ε β}
    {b : β} : (first >>= rest) = .ok b ↔ first = .ok () ∧ rest () = .ok b := by
  cases first with
  | error e => simp [bind, Except.bind]
  | ok _ => simp [bind, Except.bind]

omit [Scalar C] [Precision C R] in
theorem requirePositive_eq_ok_iff {field : String} {value : R} :
    (requirePositive field value : Except (ConfigError C R) Unit) = .ok () ↔
      Scalar.isPositive value = true := by
  unfold requirePositive
  by_cases h : Scalar.isPositive value = true
  · simp [h]
  · simp [h]

/-- Settings that pass have animations of a finite and positive length. -/
theorem EditorConfig.durations_of_validate {c : EditorConfig C R} (h : c.validate = .ok ()) :
    Scalar.isPositive c.creationMs = true ∧ Scalar.isPositive c.deletionMs = true := by
  have hall := validate_eq_ok_iff.mp h
  exact ⟨hall (.positive .creationMs) (by simp [Check.order]),
    hall (.positive .deletionMs) (by simp [Check.order])⟩

/-- Settings that pass have nodes of a finite and positive size. -/
theorem EditorConfig.sizes_of_validate {c : EditorConfig C R} (h : c.validate = .ok ()) :
    Scalar.isPositive (Precision.widen c.nodeWidth : R) = true ∧
      Scalar.isPositive (Precision.widen c.nodeHeight : R) = true := by
  have hall := validate_eq_ok_iff.mp h
  exact ⟨hall (.positive .nodeWidth) (by simp [Check.order]),
    hall (.positive .nodeHeight) (by simp [Check.order])⟩

/-- Limits of a view that pass are scales that are finite and positive and in order. -/
theorem ViewConfig.scales_of_validate {c : ViewConfig C}
    (h : (c.validate : Except (ConfigError C R) Unit) = .ok ()) :
    Scalar.isPositive (Precision.widen c.minScale : R) = true ∧
      Scalar.isPositive (Precision.widen c.maxScale : R) = true ∧ ¬ c.maxScale < c.minScale := by
  unfold validate at h
  simp only [andThen_eq_ok_iff, requirePositive_eq_ok_iff] at h
  obtain ⟨hmin, hmax, h⟩ := h
  refine ⟨hmin, hmax, fun hordered ↦ ?_⟩
  rw [if_pos hordered] at h
  cases h

/-- A step of zooming that passes is finite and positive. -/
theorem ViewConfig.scaleStep_of_validate {c : ViewConfig C}
    (h : (c.validate : Except (ConfigError C R) Unit) = .ok ()) :
    Scalar.isPositive (Precision.widen c.scaleStep : R) = true := by
  obtain ⟨-, -, hordered⟩ := scales_of_validate h
  unfold validate at h
  simp only [if_neg hordered, andThen_eq_ok_iff, requirePositive_eq_ok_iff] at h
  obtain ⟨-, -, hstep, -⟩ := h
  exact hstep

/-- A sensitivity of panning and a part of the view to fill that pass are finite and positive, and a
padding that passes is finite and not negative. -/
theorem ViewConfig.fitting_of_validate {c : ViewConfig C}
    (h : (c.validate : Except (ConfigError C R) Unit) = .ok ()) :
    Scalar.isPositive (Precision.widen c.panSensitivity : R) = true ∧
      Scalar.isPositive (Precision.widen c.fitMargin : R) = true ∧
        Scalar.isFinite c.fitPadding = true ∧ ¬ c.fitPadding < 0 := by
  obtain ⟨-, -, hordered⟩ := scales_of_validate h
  unfold validate at h
  simp only [if_neg hordered, andThen_eq_ok_iff, requirePositive_eq_ok_iff] at h
  obtain ⟨-, -, -, hpan, hmargin, h⟩ := h
  by_cases hpadding : (!Scalar.isFinite c.fitPadding || decide (c.fitPadding < 0)) = true
  · rw [if_pos hpadding] at h
    cases h
  · simp only [Bool.or_eq_true, Bool.not_eq_true', decide_eq_true_eq, not_or,
      Bool.not_eq_false] at hpadding
    exact ⟨hpan, hmargin, hpadding⟩

end LayerCanvas
