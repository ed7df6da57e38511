import LayerCanvas.Proofs.Binary.Steps
import LayerCanvas.Proofs.InPlace.Session
import LayerCanvas.Proofs.Viewport.Division

/-!
Where a step of zooming leads. The step is taken first and brought within the limits afterwards. If
the scale was within the limits before, this cannot turn the step round: what is brought within the
limits stays on the same side of a scale that lies there. A new view and a view that was reset have
the scale one, which may lie outside the limits. From there a step towards the far limit goes the
right way, and a step away from it is turned round: it brings the scale to the near limit.
-/

set_option autoImplicit false
set_option relaxedAutoImplicit false

namespace LayerCanvas

section

variable {C : Type} [Scalar C]

/-- Whether one scale leads to another in a direction. -/
def ZoomDirection.Leads (direction : ZoomDirection) (old new : C) : Prop :=
  match direction with
  | .inward => old < new
  | .outward => new < old

/-- Whether a scale is past the limit that a direction leads to. -/
def ViewConfig.IsPast (config : ViewConfig C) (direction : ZoomDirection) (scale : C) : Prop :=
  match direction with
  | .inward => config.maxScale < scale
  | .outward => scale < config.minScale

instance (config : ViewConfig C) (direction : ZoomDirection) (scale : C) :
    Decidable (config.IsPast direction scale) :=
  match direction with
  | .inward => inferInstanceAs (Decidable (_ < _))
  | .outward => inferInstanceAs (Decidable (_ < _))

namespace Viewport

variable [Steps C] {v v' : Viewport C}

/-! ### Within the limits -/

/-- Bringing a scale within the limits does not take it below what is not above the upper one. -/
theorem le_clampScale (h : v.config.Limited) {low scale : C} (hle : low ≤ scale)
    (hmax : low ≤ v.config.maxScale) : low ≤ v.clampScale scale := by
  have hmin := Limits.isNumber_of_isPositive _ h.min
  have hscale := (Steps.isNumber_of_le _ _ hle).2
  have hlarger : low ≤ Scalar.larger scale v.config.minScale := by
    unfold Scalar.larger
    rw [if_pos hmin]
    split_ifs with hlt
    · exact hle
    · exact Steps.le_trans _ _ _ hle (Steps.le_of_not_lt_of_isNumber _ _ hscale hmin hlt)
  unfold clampScale Scalar.smaller
  rw [if_pos (Limits.isNumber_of_isPositive _ h.max)]
  split_ifs
  · exact hlarger
  · exact hmax

/-- Bringing a scale within the limits does not take it above what is not below the lower one. -/
theorem clampScale_le (h : v.config.Limited) {high scale : C} (hle : scale ≤ high)
    (hmin : v.config.minScale ≤ high) : v.clampScale scale ≤ high := by
  have hlarger : Scalar.larger scale v.config.minScale ≤ high := by
    unfold Scalar.larger
    rw [if_pos (Limits.isNumber_of_isPositive _ h.min)]
    split_ifs
    · exact hle
    · exact hmin
  have hmax := Limits.isNumber_of_isPositive _ h.max
  have hnumber := (Steps.isNumber_of_le _ _ hlarger).1
  unfold clampScale Scalar.smaller
  rw [if_pos hmax]
  split_ifs with hlt
  · exact hlarger
  · exact Steps.le_trans _ _ _ (Steps.le_of_not_lt_of_isNumber _ _ hmax hnumber hlt) hlarger

/-! ### One step -/

/-- What compares one way and not the other compares strictly. -/
theorem lt_of_le_of_not_le {a b : C} (h : a ≤ b) (hne : ¬ (b ≤ a)) : a < b := by
  obtain ⟨ha, hb⟩ := Steps.isNumber_of_le _ _ h
  by_contra hlt
  exact hne (Steps.le_of_not_lt_of_isNumber _ _ hb ha hlt)

omit [Steps C] in
theorem of_zoom?_eq_some {direction : ZoomDirection} {center : Option (Point C)}
    (h : v.zoom? direction center = some v') :
    v'.transform.scale =
        v.clampScale (direction.advance v.transform.scale v.config.scaleStep) ∧
      (v'.transform.scale == v.transform.scale) = false := by
  unfold zoom? at h
  dsimp only at h
  split_ifs at h with hrefused
  cases h
  simp only [Bool.or_eq_true, not_or, Bool.not_eq_true] at hrefused
  exact ⟨rfl, hrefused.2⟩

/-- A step of zooming leads to a scale within the limits, and in its direction unless the scale was
past the limit there before. -/
theorem leads_iff_of_zoom? (h : v.config.Limited)
    (hstep : Scalar.isPositive v.config.scaleStep = true)
    (hscale : Scalar.isPositive v.transform.scale = true) {direction : ZoomDirection}
    {center : Option (Point C)} (hzoom : v.zoom? direction center = some v') :
    (v.config.minScale ≤ v'.transform.scale ∧ v'.transform.scale ≤ v.config.maxScale) ∧
      (direction.Leads v.transform.scale v'.transform.scale ↔
        ¬ v.config.IsPast direction v.transform.scale) := by
  obtain ⟨hnew, hne⟩ := of_zoom?_eq_some hzoom
  have hbounds := clampScale_bounds h (direction.advance v.transform.scale v.config.scaleStep)
  rw [← hnew] at hbounds
  refine ⟨hbounds, ?_⟩
  -- A step that is taken changes the scale, so it leads one way if it does not lead the other.
  cases direction with
  | inward =>
    constructor
    · intro hleads hpast
      have hdown := Steps.le_trans _ _ _ hbounds.2 (Limits.le_of_lt _ _ hpast)
      exact Steps.not_lt_of_le _ _ hdown hleads
    · intro hpast
      have hmax := Limits.le_of_not_lt _ _ hscale h.max hpast
      have hup := le_clampScale h (Steps.le_add _ _ hscale hstep) hmax
      rw [ZoomDirection.advance] at hnew
      rw [← hnew] at hup
      refine lt_of_le_of_not_le hup fun hdown ↦ ?_
      rw [Steps.beq_of_le_of_le _ _ hdown hup] at hne
      cases hne
  | outward =>
    constructor
    · intro hleads hpast
      have hup := Steps.le_trans _ _ _ (Limits.le_of_lt _ _ hpast) hbounds.1
      exact Steps.not_lt_of_le _ _ hup hleads
    · intro hpast
      have hmin := Limits.le_of_not_lt _ _ h.min hscale hpast
      have hdown := clampScale_le h (Steps.sub_le _ _ hscale hstep) hmin
      rw [ZoomDirection.advance] at hnew
      rw [← hnew] at hdown
      refine lt_of_le_of_not_le hdown fun hup ↦ ?_
      rw [Steps.beq_of_le_of_le _ _ hdown hup] at hne
      cases hne

end Viewport

end

namespace Viewport

/-! ### Runs -/

/-- With limits that pass their check, a step of zooming that is taken after any operations leads to
a scale within the limits, and in the direction it was told exactly if the scale was not past the
limit there. Only the scale one can be past a limit, so with limits on either side of one every step
goes as told. A step that is refused leaves the whole view as it was. -/
theorem zoom_goes_as_told_iff {config : ViewConfig}
    (hconfig : (config.validate : Except (ConfigError Float32 Float) Unit) = .ok ())
    (operations : List Operation) (direction : ZoomDirection) (center : Option Point) :
    let v := (new config).applyAll operations
    (∀ v', v.zoom? direction center = some v' →
      (zoomInPlace direction center).outcome v = (.ok (), v') ∧
        (config.minScale ≤ v'.transform.scale ∧ v'.transform.scale ≤ config.maxScale) ∧
          (direction.Leads v.transform.scale v'.transform.scale ↔
            ¬ config.IsPast direction v.transform.scale)) ∧
    (config.IsPast direction v.transform.scale → v.transform.scale = 1) ∧
    (¬ config.IsPast direction 1 → ∀ v', v.zoom? direction center = some v' →
      direction.Leads v.transform.scale v'.transform.scale) ∧
    (v.zoom? direction center = none →
      (zoomInPlace direction center).outcome v = (.error .silent, v)) := by
  intro v
  have hlimited : config.Limited := ViewConfig.limited_of_validate hconfig
  have hstep : Scalar.isPositive config.scaleStep = true :=
    Binary.isPositive_of_widen (ViewConfig.scaleStep_of_validate hconfig)
  obtain ⟨hkept, hallows⟩ := allows_applyAll hlimited operations
  have hscale : Scalar.isPositive v.transform.scale = true :=
    hlimited.isPositive_of_allows hallows
  have hleads (v' : Viewport) (hzoom : v.zoom? direction center = some v') :
      (config.minScale ≤ v'.transform.scale ∧ v'.transform.scale ≤ config.maxScale) ∧
        (direction.Leads v.transform.scale v'.transform.scale ↔
          ¬ config.IsPast direction v.transform.scale) := by
    have h := leads_iff_of_zoom? (v := v) (by rwa [hkept]) (by rwa [hkept]) hscale hzoom
    rwa [hkept] at h
  -- A scale is one or lies within the limits, and within them it is past neither.
  have hone : config.IsPast direction v.transform.scale → v.transform.scale = 1 := by
    intro hpast
    refine hallows.resolve_right fun ⟨hmin, hmax⟩ ↦ ?_
    cases direction with
    | inward => exact Steps.not_lt_of_le _ _ hmax hpast
    | outward => exact Steps.not_lt_of_le _ _ hmin hpast
  refine ⟨fun v' hzoom ↦ ⟨?_, hleads v' hzoom⟩, hone, fun hpast v' hzoom ↦ ?_, fun hnone ↦ ?_⟩
  · rw [(atomic_zoomInPlace direction center).outcome_eq, result_zoomInPlace, hzoom]
    rfl
  · refine (hleads v' hzoom).2.mpr fun hpast' ↦ hpast ?_
    rwa [hone hpast'] at hpast'
  · rw [(atomic_zoomInPlace direction center).outcome_eq, result_zoomInPlace, hnone]
    rfl

/-- With the usual limits a new view is taken one step outward, and a second step follows it. -/
theorem zoom_goes_as_told_iff_usual :
    (ViewConfig.standard.validate : Except (ConfigError Float32 Float) Unit) = .ok () ∧
      ∃ (operations : List Operation) (v' : Viewport),
        ((new .standard).applyAll operations).zoom? .outward none = some v' ∧
          v'.transform.scale < ((new .standard).applyAll operations).transform.scale ∧
            ((new .standard).applyAll operations).transform.scale < 1 := by
  have hconfig : (ViewConfig.standard.validate : Except (ConfigError Float32 Float) Unit) =
      .ok () := by decide +kernel
  let operations : List Operation := [.zoom .outward none]
  obtain ⟨v', hv'⟩ : ∃ v', ((new .standard).applyAll operations).zoom? .outward none = some v' :=
    Option.isSome_iff_exists.mp (by decide +kernel)
  have hpast : ¬ (ViewConfig.standard : ViewConfig).IsPast .outward 1 := by decide +kernel
  obtain ⟨-, -, hleads, -⟩ := zoom_goes_as_told_iff hconfig operations .outward none
  exact ⟨hconfig, operations, v', hv', hleads hpast v' hv', by decide +kernel⟩

/-- With limits that pass their check and lie above one, a new view is zoomed outward, and its scale
grows. -/
theorem zoom_turned_round :
    ∃ (config : ViewConfig) (v' : Viewport),
      (config.validate : Except (ConfigError Float32 Float) Unit) = .ok () ∧
        (new config).locked = false ∧ (new config).zoom? .outward none = some v' ∧
          (new config).transform.scale < v'.transform.scale := by
  let config : ViewConfig := { ViewConfig.standard with minScale := 2, maxScale := 3 }
  exact ⟨config, { new config with transform := ⟨⟨0, 0⟩, 2⟩ }, by decide +kernel⟩

end Viewport

end LayerCanvas
