import LayerCanvas.Proofs.Viewport.Run

/-!
The scale of a view. Every operation keeps the scale, sets it to one, or brings some value within the
limits, and what comes out of the last lies within them whatever the value was: one that is not a
number gives way to the lower limit, and one past every number to the upper one. So after any
operations the scale is one or lies within the limits.

This is asked of the numbers here: that positive ones can be compared and are no zeros, and that what
lies between two of them is one itself. The limits have to be positive and in order.
-/

set_option autoImplicit false
set_option relaxedAutoImplicit false

namespace LayerCanvas

/-- Numbers that can be kept between positive limits. -/
class Limits (C : Type) [Scalar C] : Prop where
  isNumber_of_isPositive (a : C) (h : Scalar.isPositive a = true) : Scalar.isNumber a = true
  ne_zero_of_isPositive (a : C) (h : Scalar.isPositive a = true) : (a == 0) = false
  isPositive_one : Scalar.isPositive (1 : C) = true
  le_of_lt (a b : C) (h : a < b) : a ≤ b
  le_of_not_lt (a b : C) (ha : Scalar.isPositive a = true) (hb : Scalar.isPositive b = true)
    (h : ¬ b < a) : a ≤ b
  isPositive_of_between (low high a : C) (hlow : Scalar.isPositive low = true)
    (hhigh : Scalar.isPositive high = true) (hle : low ≤ a) (hge : a ≤ high) :
    Scalar.isPositive a = true

/-- Numbers in which a step up does not lead down, and a step down does not lead up. Whatever
compares is a number, and any two numbers compare. -/
class Steps (C : Type) [Scalar C] : Prop extends Limits C where
  isNumber_of_le (a b : C) (h : a ≤ b) : Scalar.isNumber a = true ∧ Scalar.isNumber b = true
  le_of_not_lt_of_isNumber (a b : C) (ha : Scalar.isNumber a = true)
    (hb : Scalar.isNumber b = true) (h : ¬ b < a) : a ≤ b
  le_trans (a b c : C) (hab : a ≤ b) (hbc : b ≤ c) : a ≤ c
  not_lt_of_le (a b : C) (h : a ≤ b) : ¬ b < a
  beq_of_le_of_le (a b : C) (hab : a ≤ b) (hba : b ≤ a) : (a == b) = true
  le_add (a b : C) (ha : Scalar.isPositive a = true) (hb : Scalar.isPositive b = true) : a ≤ a + b
  sub_le (a b : C) (ha : Scalar.isPositive a = true) (hb : Scalar.isPositive b = true) : a - b ≤ a

variable {C R : Type} [Scalar C]

namespace ViewConfig

/-- The limits of the scale are positive and in order. -/
structure Limited (c : ViewConfig C) : Prop where
  min : Scalar.isPositive c.minScale = true
  max : Scalar.isPositive c.maxScale = true
  ordered : ¬ c.maxScale < c.minScale

/-- Whether a scale is one, or lies within the limits. -/
def Allows (c : ViewConfig C) (scale : C) : Prop :=
  scale = 1 ∨ (c.minScale ≤ scale ∧ scale ≤ c.maxScale)

theorem Limited.isPositive_of_allows [Limits C] {c : ViewConfig C} (h : c.Limited) {scale : C}
    (hscale : c.Allows scale) : Scalar.isPositive scale = true := by
  rcases hscale with rfl | ⟨hmin, hmax⟩
  · exact Limits.isPositive_one
  · exact Limits.isPositive_of_between _ _ _ h.min h.max hmin hmax

end ViewConfig

namespace Viewport

/-- What is brought within the limits lies within them, whatever it was. -/
theorem clampScale_bounds [Limits C] {v : Viewport C} (h : v.config.Limited) (scale : C) :
    v.config.minScale ≤ v.clampScale scale ∧ v.clampScale scale ≤ v.config.maxScale := by
  have hle {a : C} (ha : Scalar.isPositive a = true) : a ≤ a :=
    (Decidable.em (a < a)).elim (Limits.le_of_lt a a) (Limits.le_of_not_lt a a ha ha)
  -- Of a scale that is not a number and the lower limit the larger one is the limit.
  have hlow : v.config.minScale ≤ Scalar.larger scale v.config.minScale := by
    unfold Scalar.larger
    rw [if_pos (Limits.isNumber_of_isPositive _ h.min)]
    split_ifs with hlt
    · exact Limits.le_of_lt _ _ hlt
    · exact hle h.min
  unfold clampScale Scalar.smaller
  rw [if_pos (Limits.isNumber_of_isPositive _ h.max)]
  split_ifs with hlt
  · exact ⟨hlow, Limits.le_of_lt _ _ hlt⟩
  · exact ⟨Limits.le_of_not_lt _ _ h.min h.max h.ordered, hle h.max⟩

/-- The scales that one operation can lead to: the one there is, one, and what is brought within the
limits. -/
def Reaches (v : Viewport C) (scale : C) : Prop :=
  scale = v.transform.scale ∨ scale = 1 ∨ ∃ x, scale = v.clampScale x

/-- An operation leads to one of these scales, and leaves the limits as they are. -/
theorem reaches_apply (v : Viewport C) (operation : Operation C R) :
    (v.apply operation).config = v.config ∧ v.Reaches (v.apply operation).transform.scale := by
  cases operation with
  | setTransform t =>
    dsimp only [apply, setTransform]
    split_ifs
    · exact ⟨rfl, Or.inl rfl⟩
    · exact ⟨rfl, Or.inr (Or.inr ⟨_, rfl⟩)⟩
  | zoom direction center =>
    dsimp only [apply, zoom?]
    split_ifs
    · exact ⟨rfl, Or.inl rfl⟩
    · exact ⟨rfl, Or.inr (Or.inr ⟨_, rfl⟩)⟩
  | panBy dx dy =>
    dsimp only [apply, panBy]
    split_ifs <;> exact ⟨rfl, Or.inl rfl⟩
  | reset =>
    dsimp only [apply, reset]
    split_ifs
    · exact ⟨rfl, Or.inl rfl⟩
    · exact ⟨rfl, Or.inr (Or.inl rfl)⟩
  | fit nodes width height =>
    dsimp only [apply, fit?]
    split_ifs
    · exact ⟨rfl, Or.inl rfl⟩
    · cases v.boundsOf? nodes with
      | none => exact ⟨rfl, Or.inl rfl⟩
      | some bounds => exact ⟨rfl, Or.inr (Or.inr ⟨_, rfl⟩)⟩
  | startPan pointer =>
    dsimp only [apply, startPan?]
    split_ifs <;> exact ⟨rfl, Or.inl rfl⟩
  | updatePan pointer =>
    dsimp only [apply, updatePan]
    split_ifs
    · exact ⟨rfl, Or.inl rfl⟩
    · split <;> exact ⟨rfl, Or.inl rfl⟩
  | endPan => exact ⟨rfl, Or.inl rfl⟩
  | setLocked locked => exact ⟨rfl, Or.inl rfl⟩

/-- After any operations the limits are what they were, and the scale is one or lies within them. -/
theorem allows_applyAll [Limits C] {config : ViewConfig C} (h : config.Limited)
    (operations : List (Operation C R)) :
    ((new config).applyAll operations).config = config ∧
      config.Allows ((new config).applyAll operations).transform.scale := by
  refine applyAll_induction (P := fun v ↦ v.config = config ∧ config.Allows v.transform.scale)
    (Q := fun _ ↦ True) (fun v operation _ ⟨hconfig, hscale⟩ ↦ ?_) operations
    (fun _ _ ↦ trivial) ⟨rfl, Or.inl rfl⟩
  obtain ⟨hkept, hreaches⟩ := v.reaches_apply operation
  refine ⟨hkept.trans hconfig, ?_⟩
  rcases hreaches with hsame | hone | ⟨scale, hclamped⟩
  · rw [hsame]
    exact hscale
  · exact Or.inl hone
  · subst hconfig
    rw [hclamped]
    exact Or.inr (clampScale_bounds h scale)

end Viewport

end LayerCanvas
