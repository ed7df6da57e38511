import LayerCanvas.Animator
import Mathlib.Logic.Basic

/-!
When a tween is over. Whether it has finished is read off a quotient that was brought into the unit
interval, and whether it goes on is read off the time that has passed; the two tests agree as soon
as the quotient of a time by a duration reaches one exactly when the time reaches the duration. This
is asked of the numbers here, for times between two finite points of time and for durations that are
finite and positive. The end of a creation also has to be the whole: nothing is missing of one.

A clock may also show what is no finite time. The tests then agree as long as it can be told how
much time has passed. If it cannot, both fail: the tween has not finished, and it does not go on.
-/

set_option autoImplicit false
set_option relaxedAutoImplicit false

namespace LayerCanvas

/-- Numbers in which the two tests for the end of a tween agree. -/
class Clock (R : Type) [Scalar R] : Prop where
  one_le_div_iff (start now duration : R) (hstart : Scalar.isFinite start = true)
    (hnow : Scalar.isFinite now = true) (hduration : Scalar.isPositive duration = true) :
    1 ≤ (now - start) / duration ↔ ¬ now - start < duration
  one_le_clamp_iff (x : R) : 1 ≤ Scalar.clamp 0 1 x ↔ 1 ≤ x

/-- Numbers in which the two tests agree at infinite times too, and both fail if the clock shows no
number or starts at infinity. -/
class Lapse (R : Type) [Scalar R] : Prop where
  one_le_div_iff (start now duration : R) (hstart : Scalar.isFinite start = true)
    (hnow : Scalar.isNumber now = true) (hduration : Scalar.isPositive duration = true) :
    1 ≤ (now - start) / duration ↔ ¬ now - start < duration
  isNumber_of_isFinite (now : R) (hnow : Scalar.isFinite now = true) : Scalar.isNumber now = true
  not_one_le_div (start now duration : R)
    (h : Scalar.isNumber now = false ∨ start = now ∧ Scalar.isFinite now = false) :
    ¬ 1 ≤ (now - start) / duration
  not_lt (start now duration : R)
    (h : Scalar.isNumber now = false ∨ start = now ∧ Scalar.isFinite now = false) :
    ¬ now - start < duration

/-- Numbers in which an earlier start lies further back. -/
class Chronology (R : Type) [Scalar R] : Prop where
  isNumber_of_isFinite (a : R) (ha : Scalar.isFinite a = true) : Scalar.isNumber a = true
  le_of_not_lt (a b : R) (ha : Scalar.isFinite a = true) (hb : Scalar.isFinite b = true)
    (h : ¬ b < a) : a ≤ b
  le_of_lt (a b : R) (h : a < b) : a ≤ b
  le_trans (a b c : R) (hab : a ≤ b) (hbc : b ≤ c) : a ≤ c
  not_lt_of_le (a b : R) (h : a ≤ b) : ¬ b < a
  sub_le_sub_left (a b c : R) (ha : Scalar.isFinite a = true) (hb : Scalar.isFinite b = true)
    (hc : Scalar.isFinite c = true) (h : a ≤ b) : c - b ≤ c - a

/-- Numbers in which less time has passed at an earlier time. -/
class Passage (R : Type) [Scalar R] : Prop where
  lt_of_le_of_lt (a b c : R) (hab : a ≤ b) (hbc : b < c) : a < c
  sub_le_sub_right (a b c : R) (ha : Scalar.isFinite a = true) (hb : Scalar.isFinite b = true)
    (hc : Scalar.isFinite c = true) (h : a ≤ b) : a - c ≤ b - c

/-- Numbers in which the end of a creation is the whole. -/
class Easing (C R : Type) [Scalar C] [Scalar R] [Precision C R] : Prop where
  narrow_easeOutCubic (x : R) (h : 1 ≤ Scalar.clamp 0 1 x) :
    (Precision.narrow (easeOutCubic (Scalar.clamp 0 1 x)) : C) = 1

namespace Tween

variable {R : Type}

@[simp] theorem kind_latch (t : Tween R) (now : R) : (t.latch now).kind = t.kind := rfl

variable [Scalar R]

theorem fraction_latch (t : Tween R) (now : R) : (t.latch now).fraction now = t.fraction now := rfl

theorem isRunning_latch (t : Tween R) (now : R) :
    (t.latch now).isRunning now = t.isRunning now := rfl

/-- The time at which a tween started, if it has, is finite, and so is its positive length. -/
structure Timed (t : Tween R) : Prop where
  start : ∀ start, t.startedAt = some start → Scalar.isFinite start = true
  duration : Scalar.isPositive t.duration = true

theorem Timed.latch {t : Tween R} (h : t.Timed) {now : R} (hnow : Scalar.isFinite now = true) :
    (t.latch now).Timed := by
  refine ⟨fun start hstart ↦ ?_, h.duration⟩
  unfold Tween.latch at hstart
  cases hold : t.startedAt with
  | none =>
    rw [hold] at hstart
    rwa [← Option.some.inj hstart]
  | some old =>
    rw [hold] at hstart
    rw [← Option.some.inj hstart]
    exact h.start old hold

theorem Timed.start_getD {t : Tween R} (h : t.Timed) {now : R} (hnow : Scalar.isFinite now = true) :
    Scalar.isFinite (t.startedAt.getD now) = true := by
  cases hstart : t.startedAt with
  | none => exact hnow
  | some start => exact h.start start hstart

theorem fraction_of_timed {t : Tween R} (h : t.Timed) (now : R) :
    t.fraction now = Scalar.clamp 0 1 (t.elapsed now / t.duration) := by
  have hpositive : 0 < t.duration := by simpa using (Bool.and_eq_true_iff.mp h.duration).2
  rw [fraction, if_pos hpositive]

/-- A tween has finished exactly when it does not go on. -/
theorem one_le_fraction_iff [Clock R] {t : Tween R} (h : t.Timed) {now : R}
    (hnow : Scalar.isFinite now = true) : 1 ≤ t.fraction now ↔ t.isRunning now = false := by
  rw [fraction_of_timed h, Clock.one_le_clamp_iff, elapsed,
    Clock.one_le_div_iff _ _ _ (h.start_getD hnow) hnow h.duration, isRunning,
    decide_eq_false_iff_not, elapsed]

/-! ### Times that are not finite -/

/-- Whether it can be told at a time how long a tween has been running. -/
def Measurable (t : Tween R) (now : R) : Prop :=
  Scalar.isNumber now = true ∧ (t.startedAt = none → Scalar.isFinite now = true)

section

variable [Clock R] [Lapse R] {t : Tween R} {now : R}

omit [Clock R] in
theorem measurable_of_isFinite (hnow : Scalar.isFinite now = true) : t.Measurable now :=
  ⟨Lapse.isNumber_of_isFinite now hnow, fun _ ↦ hnow⟩

theorem one_le_fraction_iff_of_measurable (h : t.Timed) (hnow : t.Measurable now) :
    1 ≤ t.fraction now ↔ t.isRunning now = false := by
  have hstart : Scalar.isFinite (t.startedAt.getD now) = true := by
    cases hstarted : t.startedAt with
    | none => exact hnow.2 hstarted
    | some start => exact h.start start hstarted
  rw [fraction_of_timed h, Clock.one_le_clamp_iff, elapsed,
    Lapse.one_le_div_iff _ _ _ hstart hnow.1 h.duration, isRunning, decide_eq_false_iff_not,
    elapsed]

omit [Clock R] [Lapse R] in
theorem not_measurable_cases (hnow : ¬ t.Measurable now) : Scalar.isNumber now = false ∨
    t.startedAt.getD now = now ∧ Scalar.isFinite now = false := by
  by_cases hnumber : Scalar.isNumber now = true
  · right
    obtain ⟨hstart, hinfinite⟩ := Classical.not_imp.mp fun h ↦ hnow ⟨hnumber, h⟩
    exact ⟨by rw [hstart, Option.getD_none], by simpa using hinfinite⟩
  · exact Or.inl (by simpa using hnumber)

/-- A tween of which it cannot be told how long it has been running has not finished. -/
theorem not_one_le_fraction (h : t.Timed) (hnow : ¬ t.Measurable now) : ¬ 1 ≤ t.fraction now := by
  rw [fraction_of_timed h, Clock.one_le_clamp_iff]
  exact Lapse.not_one_le_div _ _ _ (not_measurable_cases hnow)

omit [Clock R] in
/-- A tween of which it cannot be told how long it has been running does not go on. -/
theorem isRunning_of_not_measurable (hnow : ¬ t.Measurable now) : t.isRunning now = false :=
  decide_eq_false (Lapse.not_lt _ _ _ (not_measurable_cases hnow))

omit [Clock R] in
/-- Whatever the time, a tween that goes on has started at a finite time. -/
theorem Timed.latch_of_isRunning (h : t.Timed) (hrunning : t.isRunning now = true) :
    (t.latch now).Timed := by
  have hmeasurable : t.Measurable now := Classical.byContradiction fun hnot ↦ by
    rw [isRunning_of_not_measurable hnot] at hrunning
    cases hrunning
  refine ⟨fun start hstart ↦ ?_, h.duration⟩
  cases hstarted : t.startedAt with
  | none =>
    rw [Tween.latch, hstarted] at hstart
    cases hstart
    exact hmeasurable.2 hstarted
  | some old =>
    rw [Tween.latch, hstarted] at hstart
    cases hstart
    exact h.start old hstarted

end

/-- A creation that has finished shows the whole connection. -/
theorem narrow_progress_of_finished {C : Type} [Scalar C] [Precision C R] [Easing C R] {t : Tween R}
    (h : t.Timed) (hkind : t.kind = .creation) {now : R} (hfinished : 1 ≤ t.fraction now) :
    (Precision.narrow (t.progress now) : C) = 1 := by
  have hprogress : t.progress now = easeOutCubic (t.fraction now) := by
    unfold progress
    rw [hkind]
  rw [fraction_of_timed h] at hfinished
  rw [hprogress, fraction_of_timed h]
  exact Easing.narrow_easeOutCubic _ hfinished

end Tween

end LayerCanvas
