import LayerCanvas.Proofs.Binary.Limits
import LayerCanvas.Proofs.Config

/-!
What a view divides by. Going back from the screen to the canvas divides by the scale, and zooming
about a point divides by the scale that there was. Both are written here once more with a look at
every divisor, and give what they gave before: with settings that pass their check the scale is
finite and positive after any operations with any numbers.
-/

set_option autoImplicit false
set_option relaxedAutoImplicit false

namespace LayerCanvas

variable {C R : Type} [Scalar C]

/-- The quotient of two numbers. There is none if the divisor is a zero. -/
def Scalar.divide? (a b : C) : Option C := if b == 0 then none else some (a / b)

theorem Scalar.divide?_of_ne {a b : C} (h : (b == 0) = false) : divide? a b = some (a / b) :=
  if_neg (by simp [h])

/-- The canvas point that appears at a screen point, unless it takes a division by zero. -/
def Transform.toCanvasChecked? (t : Transform C) (p : Point C) : Option (Point C) := do
  let x ← Scalar.divide? (p.x - t.offset.x) t.scale
  let y ← Scalar.divide? (p.y - t.offset.y) t.scale
  pure ⟨x, y⟩

namespace Viewport

/-- One step of zooming, unless it takes a division by zero. -/
def zoomChecked? (v : Viewport C) (direction : ZoomDirection) (center : Option (Point C)) :
    Option (Option (Viewport C)) := do
  let old := v.transform.scale
  let new := v.clampScale (direction.advance old v.config.scaleStep)
  if v.locked || new == old then pure none
  else
    let offset := v.transform.offset
    let offset ←
      match center with
      | none => pure offset
      | some c => do
        let ratio ← Scalar.divide? new old
        pure ⟨c.x - (c.x - offset.x) * ratio, c.y - (c.y - offset.y) * ratio⟩
    pure (some { v with transform := ⟨offset, new⟩ })

end Viewport

theorem Transform.toCanvasChecked?_eq {t : Transform C} (h : (t.scale == 0) = false) (p : Point C) :
    t.toCanvasChecked? p = some (t.toCanvas p) := by
  rw [toCanvasChecked?, Scalar.divide?_of_ne h, Scalar.divide?_of_ne h]
  rfl

theorem Viewport.zoomChecked?_eq {v : Viewport C} (h : (v.transform.scale == 0) = false)
    (direction : ZoomDirection) (center : Option (Point C)) :
    v.zoomChecked? direction center = some (v.zoom? direction center) := by
  unfold zoomChecked? zoom?
  dsimp only
  split_ifs
  · rfl
  · cases center with
    | none => rfl
    | some c =>
      rw [Scalar.divide?_of_ne h]
      rfl

/-- Limits that pass their check are positive and in order. -/
theorem ViewConfig.limited_of_validate {config : ViewConfig}
    (h : (config.validate : Except (ConfigError Float32 Float) Unit) = .ok ()) :
    config.Limited := by
  obtain ⟨hmin, hmax, hordered⟩ := scales_of_validate h
  exact ⟨Binary.isPositive_of_widen hmin, Binary.isPositive_of_widen hmax, hordered⟩

/-- With limits that pass their check, the scale of a view is one or lies within them after any
operations with any numbers. So it is finite and greater than zero, and neither going back to the
canvas nor zooming ever divides by zero. -/
theorem Viewport.scale_within_limits {config : ViewConfig}
    (hconfig : (config.validate : Except (ConfigError Float32 Float) Unit) = .ok ())
    (operations : List Operation) :
    let v := (new config).applyAll operations
    (v.transform.scale = 1 ∨
        (config.minScale ≤ v.transform.scale ∧ v.transform.scale ≤ config.maxScale)) ∧
      Scalar.isFinite v.transform.scale = true ∧ 0 < v.transform.scale ∧
        (∀ p, v.transform.toCanvasChecked? p = some (v.transform.toCanvas p)) ∧
          ∀ direction center, v.zoomChecked? direction center = some (v.zoom? direction center) := by
  intro v
  have hlimited : config.Limited := ViewConfig.limited_of_validate hconfig
  obtain ⟨-, hallows⟩ := allows_applyAll hlimited operations
  have hpositive : Scalar.isPositive v.transform.scale = true :=
    hlimited.isPositive_of_allows hallows
  have hne : (v.transform.scale == 0) = false := Limits.ne_zero_of_isPositive _ hpositive
  obtain ⟨hfinite, hgreater⟩ := Bool.and_eq_true_iff.mp hpositive
  exact ⟨hallows, hfinite, of_decide_eq_true hgreater, Transform.toCanvasChecked?_eq hne,
    zoomChecked?_eq hne⟩

/-- The usual limits, and a view that is given a scale that is no number, fitted to a node of no
size in a view of endless width, shifted to where nothing is, and zoomed out. -/
theorem Viewport.scale_within_limits_endless :
    ∃ (operations : List Operation) (scale : Float32),
      (ViewConfig.standard.validate : Except (ConfigError Float32 Float) Unit) = .ok () ∧
        ((new .standard).applyAll operations).transform.scale = scale ∧
          Scalar.isNumber ((new .standard).applyAll operations).transform.offset.x = false ∧
            (scale = 1 ∨ (ViewConfig.standard.minScale ≤ scale ∧
              scale ≤ ViewConfig.standard.maxScale)) ∧ 0 < scale := by
  let node : Node := ⟨⟨"a"⟩, ⟨"", "", "", "", .ofList [], "", ""⟩, ⟨0, 0⟩, 0, 0⟩
  let operations : List Operation :=
    [.setTransform ⟨⟨0, 0⟩, 0 / 0⟩, .fit [node] (1 / 0) (1 / 0), .panBy (-1 / 0) 0,
      .zoom .outward (some ⟨0, 0⟩)]
  have hconfig : (ViewConfig.standard.validate : Except (ConfigError Float32 Float) Unit) =
      .ok () := by decide +kernel
  have hoffset : Scalar.isNumber ((new .standard).applyAll operations).transform.offset.x =
      false := by decide +kernel
  obtain ⟨hallows, -, hpositive, -⟩ := scale_within_limits hconfig operations
  exact ⟨operations, _, hconfig, rfl, hoffset, hallows, hpositive⟩

end LayerCanvas
