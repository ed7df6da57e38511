import LayerCanvas.Binary.Precision
import LayerCanvas.Point
import LayerCanvas.Proofs.Viewport.Scale
import Mathlib.Algebra.Order.Field.Rat
import Mathlib.Tactic.Linarith

/-!
Exact numbers. The rational numbers are not enough to measure a canvas in: the bounds of nothing are
infinite, and some divisions are by zero. So an exact number is a rational one, one of two infinite
ones, or the undefined one, which compares with nothing. On the rational numbers every operation is
the exact one, and all but a division by zero stay among them.

What is said of exact numbers is what the definitions of the canvas mean when nothing is rounded.
-/

set_option autoImplicit false
set_option relaxedAutoImplicit false

namespace LayerCanvas

/-- A number that is never rounded. -/
inductive Exact
  | rational (q : ℚ)
  | infinite (negative : Bool)
  | undefined
  deriving DecidableEq

namespace Exact

instance : Coe ℚ Exact := ⟨rational⟩

/-! ### Operations -/

/-- The number with the other sign. -/
def neg : Exact → Exact
  | rational q => rational (-q)
  | infinite negative => infinite !negative
  | undefined => undefined

/-- The sum. Two infinities of different signs have none. -/
def add : Exact → Exact → Exact
  | rational p, rational q => rational (p + q)
  | infinite s, rational _ => infinite s
  | rational _, infinite t => infinite t
  | infinite s, infinite t => if s = t then infinite s else undefined
  | _, _ => undefined

/-- The product. Zero and an infinity have none. -/
def mul : Exact → Exact → Exact
  | rational p, rational q => rational (p * q)
  | infinite s, rational q => if q = 0 then undefined else infinite (s ^^ decide (q < 0))
  | rational p, infinite t => if p = 0 then undefined else infinite (decide (p < 0) ^^ t)
  | infinite s, infinite t => infinite (s ^^ t)
  | _, _ => undefined

/-- The quotient. Dividing by zero leads past every number, and from zero nowhere. -/
def div : Exact → Exact → Exact
  | rational p, rational q =>
    if q ≠ 0 then rational (p / q) else if p ≠ 0 then infinite (decide (p < 0)) else undefined
  | infinite s, rational q => infinite (s ^^ decide (q < 0))
  | rational _, infinite _ => rational 0
  | _, _ => undefined

/-- The strict order. -/
def Less : Exact → Exact → Prop
  | rational p, rational q => p < q
  | infinite s, rational _ => s = true
  | rational _, infinite t => t = false
  | infinite s, infinite t => s = true ∧ t = false
  | _, _ => False

instance : DecidableRel Less
  | rational p, rational q => inferInstanceAs (Decidable (p < q))
  | infinite s, rational _ => inferInstanceAs (Decidable (s = true))
  | rational _, infinite t => inferInstanceAs (Decidable (t = false))
  | infinite s, infinite t => inferInstanceAs (Decidable (s = true ∧ t = false))
  | undefined, _ | rational _, undefined | infinite _, undefined =>
    inferInstanceAs (Decidable False)

/-- Whether two numbers are the same. The undefined one is not the same as itself. -/
def same (a b : Exact) : Bool := decide (a = b ∧ a ≠ undefined)

instance : Scalar Exact where
  add := add
  sub a b := a.add b.neg
  mul := mul
  div := div
  neg := neg
  lt := Less
  le a b := Less a b ∨ a.same b = true
  beq := same
  ofNat n := rational n
  decidableLT := inferInstanceAs (DecidableRel Less)
  decidableLE a b := inferInstanceAs (Decidable (Less a b ∨ a.same b = true))

/-- Numbers that are never rounded have one precision. -/
instance : Precision Exact Exact := ⟨id, id⟩

/-! ### Rational numbers -/

section Rational

variable (p q : ℚ)

@[simp] theorem rational_inj : (p : Exact) = q ↔ p = q := ⟨rational.inj, congrArg rational⟩

@[simp] theorem rational_add : (p : Exact) + q = (p + q : ℚ) := rfl

@[simp] theorem rational_sub : (p : Exact) - q = (p - q : ℚ) :=
  congrArg rational (sub_eq_add_neg p q).symm

@[simp] theorem rational_mul : (p : Exact) * q = (p * q : ℚ) := rfl

theorem rational_div (h : q ≠ 0) : (p : Exact) / q = (p / q : ℚ) := if_pos h

@[simp] theorem rational_lt : (p : Exact) < q ↔ p < q := Iff.rfl

@[simp] theorem rational_beq : ((p : Exact) == q) = decide (p = q) := by
  show same p q = _
  simp [same]

@[simp] theorem rational_le : (p : Exact) ≤ q ↔ p ≤ q := by
  show p < q ∨ ((p : Exact) == q) = true ↔ p ≤ q
  rw [rational_beq, decide_eq_true_eq, le_iff_lt_or_eq]

theorem zero_eq : (0 : Exact) = (0 : ℚ) := rfl

theorem one_eq : (1 : Exact) = (1 : ℚ) := rfl

theorem two_eq : (2 : Exact) = (2 : ℚ) := rfl

@[simp] theorem isNumber_rational : Scalar.isNumber (p : Exact) = true := by
  simp [Scalar.isNumber]

@[simp] theorem smaller_rational : Scalar.smaller (p : Exact) q = (min p q : ℚ) := by
  by_cases h : p < q
  · simp [Scalar.smaller, h, min_eq_left h.le]
  · simp [Scalar.smaller, h, min_eq_right (not_lt.mp h)]

@[simp] theorem larger_rational : Scalar.larger (p : Exact) q = (max p q : ℚ) := by
  by_cases h : q < p
  · simp [Scalar.larger, h, max_eq_left h.le]
  · simp [Scalar.larger, h, max_eq_right (not_lt.mp h)]

/-- What is past every number gives way to any number. -/
@[simp] theorem smaller_infinity : Scalar.smaller Scalar.infinity (q : Exact) = q := by
  have hinfinity : (Scalar.infinity : Exact) = infinite false := by decide
  have hlt : ¬ (infinite false < (q : Exact)) := Bool.false_ne_true
  rw [hinfinity, Scalar.smaller, if_pos (isNumber_rational q), if_neg hlt]

@[simp] theorem larger_neg_infinity : Scalar.larger (-Scalar.infinity) (q : Exact) = q := by
  have hinfinity : (-Scalar.infinity : Exact) = infinite true := by decide
  have hlt : ¬ ((q : Exact) < infinite true) := Bool.false_ne_true.symm
  rw [hinfinity, Scalar.larger, if_pos (isNumber_rational q), if_neg hlt]

end Rational

variable {a b c : Exact} {p q : ℚ}

theorem isFinite_iff : Scalar.isFinite a = true ↔ ∃ q : ℚ, a = q := by
  constructor
  · intro h
    cases a with
    | rational q => exact ⟨q, rfl⟩
    | infinite negative => cases negative <;> cases h
    | undefined => cases h
  · rintro ⟨q, rfl⟩
    simp [Scalar.isFinite, zero_eq]

@[simp] theorem isFinite_rational (q : ℚ) : Scalar.isFinite (q : Exact) = true :=
  isFinite_iff.mpr ⟨q, rfl⟩

theorem isPositive_iff : Scalar.isPositive a = true ↔ ∃ q : ℚ, a = q ∧ 0 < q := by
  unfold Scalar.isPositive
  rw [Bool.and_eq_true, isFinite_iff, decide_eq_true_eq]
  constructor
  · rintro ⟨⟨q, rfl⟩, hq⟩
    exact ⟨q, rfl, hq⟩
  · rintro ⟨q, rfl, hq⟩
    exact ⟨⟨q, rfl⟩, hq⟩

theorem isFinite_of_isPositive (h : Scalar.isPositive a = true) : Scalar.isFinite a = true :=
  (Bool.and_eq_true_iff.mp h).1

/-! ### Finite numbers -/

theorem isFinite_add (ha : Scalar.isFinite a = true) (hb : Scalar.isFinite b = true) :
    Scalar.isFinite (a + b) = true := by
  obtain ⟨p, rfl⟩ := isFinite_iff.mp ha
  obtain ⟨q, rfl⟩ := isFinite_iff.mp hb
  simp

theorem isFinite_sub (ha : Scalar.isFinite a = true) (hb : Scalar.isFinite b = true) :
    Scalar.isFinite (a - b) = true := by
  obtain ⟨p, rfl⟩ := isFinite_iff.mp ha
  obtain ⟨q, rfl⟩ := isFinite_iff.mp hb
  simp

theorem isFinite_mul (ha : Scalar.isFinite a = true) (hb : Scalar.isFinite b = true) :
    Scalar.isFinite (a * b) = true := by
  obtain ⟨p, rfl⟩ := isFinite_iff.mp ha
  obtain ⟨q, rfl⟩ := isFinite_iff.mp hb
  simp

theorem isFinite_div (ha : Scalar.isFinite a = true) (hb : Scalar.isPositive b = true) :
    Scalar.isFinite (a / b) = true := by
  obtain ⟨p, rfl⟩ := isFinite_iff.mp ha
  obtain ⟨q, rfl, hq⟩ := isPositive_iff.mp hb
  simp [rational_div p q hq.ne']

/-! ### Limits -/

/-- What lies between two rational numbers is rational. -/
theorem exists_rational_of_between (hlow : (p : Exact) ≤ a) (hhigh : a ≤ (q : Exact)) :
    ∃ r : ℚ, a = r := by
  cases a with
  | rational r => exact ⟨r, rfl⟩
  | undefined => rcases hlow with h | h <;> cases h
  | infinite negative =>
    cases negative with
    | true => rcases hlow with h | h <;> cases h
    | false => rcases hhigh with h | h <;> cases h

instance : Limits Exact where
  isNumber_of_isPositive a h := by
    obtain ⟨q, rfl, -⟩ := isPositive_iff.mp h
    exact isNumber_rational q
  ne_zero_of_isPositive a h := by
    obtain ⟨q, rfl, hq⟩ := isPositive_iff.mp h
    simp [zero_eq, hq.ne']
  isPositive_one := isPositive_iff.mpr ⟨1, rfl, one_pos⟩
  le_of_lt a b h := Or.inl h
  le_of_not_lt a b ha hb h := by
    obtain ⟨p, rfl, -⟩ := isPositive_iff.mp ha
    obtain ⟨q, rfl, -⟩ := isPositive_iff.mp hb
    exact (rational_le p q).mpr (not_lt.mp h)
  isPositive_of_between low high a hlow hhigh hle hge := by
    obtain ⟨p, rfl, hp⟩ := isPositive_iff.mp hlow
    obtain ⟨q, rfl, -⟩ := isPositive_iff.mp hhigh
    obtain ⟨r, rfl⟩ := exists_rational_of_between hle hge
    exact isPositive_iff.mpr ⟨r, rfl, hp.trans_le ((rational_le p r).mp hle)⟩

/-- What is at most two rational numbers is at most the smaller of them. -/
theorem le_min_iff : a ≤ ((min p q : ℚ) : Exact) ↔ a ≤ (p : Exact) ∧ a ≤ (q : Exact) := by
  cases a with
  | rational r => simp
  | undefined => simp only [LE.le, Less, same]; simp
  | infinite negative => simp only [LE.le, Less, same]; simp

/-- What is at least two rational numbers is at least the larger of them. -/
theorem max_le_iff : ((max p q : ℚ) : Exact) ≤ a ↔ (p : Exact) ≤ a ∧ (q : Exact) ≤ a := by
  cases a with
  | rational r => simp
  | undefined => simp only [LE.le, Less, same]; simp
  | infinite negative => simp only [LE.le, Less, same]; simp

end Exact

end LayerCanvas
