import LayerCanvas.Proofs.Tween

/-!
The progress of a tween over time. What a tween shows goes through a difference, a quotient, a
clamp, a cube and a narrowing, and each of these keeps the order of its arguments or turns it round.
So the progress stays in the unit interval, that of a creation does not decrease, and that of a
deletion does not increase, as long as the times do not go back.

This is asked of the numbers here: the operations that a tween needs keep the order, where they are
applied to numbers of the unit interval or to times, and are exact at zero and at one.
-/

set_option autoImplicit false
set_option relaxedAutoImplicit false

namespace LayerCanvas

/-- Numbers in which the steps from a time to the progress of a tween keep the order, and are exact
at the ends of the unit interval. -/
class Gradual (R : Type) [Scalar R] : Prop extends Chronology R, Passage R where
  isNumber_of_le (a b : R) (h : a ≤ b) : Scalar.isNumber a = true ∧ Scalar.isNumber b = true
  le_of_not_lt_of_isNumber (a b : R) (ha : Scalar.isNumber a = true)
    (hb : Scalar.isNumber b = true) (h : ¬ b < a) : a ≤ b
  zero_le_one : (0 : R) ≤ 1
  zero_le_sub (a b : R) (ha : Scalar.isFinite a = true) (hb : Scalar.isFinite b = true)
    (h : a ≤ b) : 0 ≤ b - a
  zero_le_div (a d : R) (ha : 0 ≤ a) (hd : Scalar.isPositive d = true) : 0 ≤ a / d
  div_le_div (a b d : R) (ha : 0 ≤ a) (h : a ≤ b) (hd : Scalar.isPositive d = true) :
    a / d ≤ b / d
  one_sub_le_one_sub (a b : R) (ha : 0 ≤ a) (h : a ≤ b) (hb : b ≤ 1) : 1 - b ≤ 1 - a
  one_sub_zero : (1 : R) - 0 = 1
  one_sub_one : (1 : R) - 1 = 0
  mul_le_mul (a b a' b' : R) (ha : 0 ≤ a) (h : a ≤ b) (hb : b ≤ 1) (ha' : 0 ≤ a') (h' : a' ≤ b')
    (hb' : b' ≤ 1) : a * a' ≤ b * b'
  zero_mul_zero : (0 : R) * 0 = 0
  one_mul_one : (1 : R) * 1 = 1

/-- Numbers of which the coarser ones are in the order of the finer ones they are rounded from, and
keep zero and one. -/
class Coarsening (C R : Type) [Scalar C] [Scalar R] [Precision C R] : Prop where
  narrow_le_narrow (a b : R) (ha : 0 ≤ a) (h : a ≤ b) (hb : b ≤ 1) :
    (Precision.narrow a : C) ≤ Precision.narrow b
  narrow_zero : (Precision.narrow (0 : R) : C) = 0
  narrow_one : (Precision.narrow (1 : R) : C) = 1
  le_refl (a : C) (h : 0 ≤ a) : a ≤ a

variable {C R : Type} [Scalar R]

/-! ### The unit interval -/

/-- Between zero and one. -/
structure Scalar.InUnit {α : Type} [Scalar α] (x : α) : Prop where
  zero_le : 0 ≤ x
  le_one : x ≤ 1

namespace Scalar

variable [Gradual R] {x y x' y' : R}

theorem le_refl_of_isNumber (h : isNumber x = true) : x ≤ x :=
  Gradual.le_of_not_lt_of_isNumber x x h h fun hlt ↦
    Chronology.not_lt_of_le x x (Chronology.le_of_lt x x hlt) hlt

theorem inUnit_zero : InUnit (0 : R) :=
  ⟨le_refl_of_isNumber (Gradual.isNumber_of_le 0 1 Gradual.zero_le_one).1, Gradual.zero_le_one⟩

theorem inUnit_one : InUnit (1 : R) :=
  ⟨Gradual.zero_le_one, le_refl_of_isNumber (Gradual.isNumber_of_le 0 1 Gradual.zero_le_one).2⟩

/-- Nothing that is not negative is below the unit interval. -/
theorem clamp_of_nonneg (h : 0 ≤ x) : clamp 0 1 x = if 1 < x then 1 else x :=
  if_neg (Chronology.not_lt_of_le 0 x h)

theorem le_one_of_nonneg (h : 0 ≤ x) (hsmall : ¬ 1 < x) : x ≤ 1 :=
  Gradual.le_of_not_lt_of_isNumber x 1 (Gradual.isNumber_of_le 0 x h).2
    (Gradual.isNumber_of_le 0 1 Gradual.zero_le_one).2 hsmall

theorem inUnit_clamp (h : 0 ≤ x) : InUnit (clamp 0 1 x) := by
  rw [clamp_of_nonneg h]
  by_cases hlarge : 1 < x
  · rw [if_pos hlarge]
    exact inUnit_one
  · rw [if_neg hlarge]
    exact ⟨h, le_one_of_nonneg h hlarge⟩

theorem clamp_mono (h : 0 ≤ x) (hle : x ≤ y) : clamp 0 1 x ≤ clamp 0 1 y := by
  have hy : 0 ≤ y := Chronology.le_trans 0 x y h hle
  by_cases hlarge : 1 < y
  · rw [clamp_of_nonneg hy, if_pos hlarge]
    exact (inUnit_clamp h).le_one
  · have hsmall : ¬ 1 < x :=
      Chronology.not_lt_of_le x 1 (Chronology.le_trans x y 1 hle (le_one_of_nonneg hy hlarge))
    rwa [clamp_of_nonneg h, clamp_of_nonneg hy, if_neg hlarge, if_neg hsmall]

theorem InUnit.one_sub (h : InUnit x) : InUnit (1 - x) := by
  have hlow := Gradual.one_sub_le_one_sub x 1 h.zero_le h.le_one inUnit_one.le_one
  have hhigh := Gradual.one_sub_le_one_sub 0 x inUnit_zero.zero_le h.zero_le h.le_one
  rw [Gradual.one_sub_one] at hlow
  rw [Gradual.one_sub_zero] at hhigh
  exact ⟨hlow, hhigh⟩

theorem InUnit.mul (hx : InUnit x) (hy : InUnit y) : InUnit (x * y) := by
  have hzero := inUnit_zero (R := R).zero_le
  have hlow := Gradual.mul_le_mul 0 x 0 y hzero hx.zero_le hx.le_one hzero hy.zero_le hy.le_one
  have hhigh := Gradual.mul_le_mul x 1 y 1 hx.zero_le hx.le_one inUnit_one.le_one hy.zero_le
    hy.le_one inUnit_one.le_one
  rw [Gradual.zero_mul_zero] at hlow
  rw [Gradual.one_mul_one] at hhigh
  exact ⟨hlow, hhigh⟩

theorem InUnit.mul_mono (hx : 0 ≤ x) (hx' : InUnit x') (h : x ≤ x') (hy : 0 ≤ y) (hy' : InUnit y')
    (h' : y ≤ y') : x * y ≤ x' * y' :=
  Gradual.mul_le_mul x x' y y' hx h hx'.le_one hy h' hy'.le_one

end Scalar

open Scalar

section

variable [Gradual R] {x y : R}

theorem inUnit_easeOutCubic (h : InUnit x) : InUnit (easeOutCubic x) :=
  (h.one_sub.mul (h.one_sub.mul h.one_sub)).one_sub

/-- A creation slows down, but does not turn back. -/
theorem easeOutCubic_mono (hx : InUnit x) (hy : InUnit y) (h : x ≤ y) :
    easeOutCubic x ≤ easeOutCubic y := by
  have hleft : 1 - y ≤ 1 - x := Gradual.one_sub_le_one_sub x y hx.zero_le h hy.le_one
  have hsquare : (1 - y) * (1 - y) ≤ (1 - x) * (1 - x) :=
    InUnit.mul_mono hy.one_sub.zero_le hx.one_sub hleft hy.one_sub.zero_le hx.one_sub hleft
  have hsquared := hy.one_sub.mul hy.one_sub
  have hcube : (1 - y) * ((1 - y) * (1 - y)) ≤ (1 - x) * ((1 - x) * (1 - x)) :=
    InUnit.mul_mono hy.one_sub.zero_le hx.one_sub hleft hsquared.zero_le
      (hx.one_sub.mul hx.one_sub) hsquare
  exact Gradual.one_sub_le_one_sub _ _ (hy.one_sub.mul hsquared).zero_le hcube
    (hx.one_sub.mul (hx.one_sub.mul hx.one_sub)).le_one

variable [Scalar C] [Precision C R] [Coarsening C R]

theorem inUnit_narrow (h : InUnit x) : InUnit (Precision.narrow x : C) := by
  have hlow := Coarsening.narrow_le_narrow (C := C) 0 x inUnit_zero.zero_le h.zero_le h.le_one
  have hhigh := Coarsening.narrow_le_narrow (C := C) x 1 h.zero_le h.le_one inUnit_one.le_one
  rw [Coarsening.narrow_zero] at hlow
  rw [Coarsening.narrow_one] at hhigh
  exact ⟨hlow, hhigh⟩

end

theorem Coarsening.inUnit_zero (C R : Type) [Scalar C] [Scalar R] [Precision C R] [Gradual R]
    [Coarsening C R] : InUnit (0 : C) :=
  Coarsening.narrow_zero (C := C) (R := R) ▸ inUnit_narrow Scalar.inUnit_zero

theorem Coarsening.inUnit_one (C R : Type) [Scalar C] [Scalar R] [Precision C R] [Gradual R]
    [Coarsening C R] : InUnit (1 : C) :=
  Coarsening.narrow_one (C := C) (R := R) ▸ inUnit_narrow Scalar.inUnit_one

/-! ### Tweens -/

namespace Tween

variable {t : Tween R} {start now later : R}

/-- Whether a tween, if it has started, has not started later than a time. -/
def StartedBy (t : Tween R) (now : R) : Prop := ∀ start, t.startedAt = some start → start ≤ now

variable [Gradual R]

theorem StartedBy.mono (hby : t.StartedBy now) (hle : now ≤ later) : t.StartedBy later :=
  fun start hstart ↦ Chronology.le_trans start now later (hby start hstart) hle

theorem StartedBy.latch (hby : t.StartedBy now) (hnow : Scalar.isFinite now = true) :
    (t.latch now).StartedBy now := by
  intro start hstart
  cases hstarted : t.startedAt with
  | none =>
    rw [Tween.latch, hstarted] at hstart
    rw [← Option.some.inj hstart]
    exact le_refl_of_isNumber (Chronology.isNumber_of_isFinite now hnow)
  | some old =>
    rw [Tween.latch, hstarted] at hstart
    rw [← Option.some.inj hstart]
    exact hby old hstarted

theorem zero_le_elapsed (h : t.Timed) (hnow : Scalar.isFinite now = true) (hby : t.StartedBy now) :
    0 ≤ t.elapsed now :=
  Gradual.zero_le_sub _ now (h.start_getD hnow) hnow (hby.latch hnow _ rfl)

theorem inUnit_fraction (h : t.Timed) (hnow : Scalar.isFinite now = true) (hby : t.StartedBy now) :
    InUnit (t.fraction now) := by
  rw [fraction_of_timed h]
  exact inUnit_clamp (Gradual.zero_le_div _ _ (zero_le_elapsed h hnow hby) h.duration)

theorem inUnit_progress (h : t.Timed) (hnow : Scalar.isFinite now = true) (hby : t.StartedBy now) :
    InUnit (t.progress now) := by
  have hfraction := inUnit_fraction h hnow hby
  unfold progress
  cases t.kind with
  | creation => exact inUnit_easeOutCubic hfraction
  | deletion => exact hfraction.one_sub

/-- A tween is over when it has been running for as long as it lasts. -/
theorem isRunning_eq_false_iff (h : t.Timed) (hnow : Scalar.isFinite now = true)
    (hby : t.StartedBy now) : t.isRunning now = false ↔ t.duration ≤ t.elapsed now := by
  have hduration := Chronology.isNumber_of_isFinite _ (Bool.and_eq_true_iff.mp h.duration).1
  have helapsed := (Gradual.isNumber_of_le 0 _ (zero_le_elapsed h hnow hby)).2
  rw [isRunning, decide_eq_false_iff_not]
  exact ⟨Gradual.le_of_not_lt_of_isNumber _ _ hduration helapsed, Chronology.not_lt_of_le _ _⟩

section

variable (h : t.Timed) (hstarted : t.startedAt = some start) (hnow : Scalar.isFinite now = true)
  (hlater : Scalar.isFinite later = true) (hby : t.StartedBy now) (hle : now ≤ later)

include h hstarted hnow hlater hby hle

theorem fraction_mono : t.fraction now ≤ t.fraction later := by
  have helapsed (time : R) : t.elapsed time = time - start := by
    rw [elapsed, hstarted, Option.getD_some]
  have hpassed := zero_le_elapsed h hnow hby
  have hlonger : t.elapsed now ≤ t.elapsed later := by
    rw [helapsed, helapsed]
    exact Passage.sub_le_sub_right now later start hnow hlater (h.start start hstarted) hle
  rw [fraction_of_timed h, fraction_of_timed h]
  exact clamp_mono (Gradual.zero_le_div _ _ hpassed h.duration)
    (Gradual.div_le_div _ _ _ hpassed hlonger h.duration)

/-- What appears does not fade. -/
theorem progress_mono (hkind : t.kind = .creation) : t.progress now ≤ t.progress later := by
  unfold progress
  rw [hkind]
  exact easeOutCubic_mono (inUnit_fraction h hnow hby) (inUnit_fraction h hlater (hby.mono hle))
    (fraction_mono h hstarted hnow hlater hby hle)

/-- What fades does not appear. -/
theorem progress_anti (hkind : t.kind = .deletion) : t.progress later ≤ t.progress now := by
  unfold progress
  rw [hkind]
  exact Gradual.one_sub_le_one_sub _ _ (inUnit_fraction h hnow hby).zero_le
    (fraction_mono h hstarted hnow hlater hby hle) (inUnit_fraction h hlater (hby.mono hle)).le_one

end

end Tween

end LayerCanvas
