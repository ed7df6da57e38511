import LayerCanvas.Proofs.Binary.Narrowing
import LayerCanvas.Proofs.Binary.Sum
import LayerCanvas.Proofs.Viewport.Scale

/-!
Single-precision numbers between limits. What is not a number compares with nothing, and the others
compare as their units do; so of two of them one is at most the other, and what lies between two
positive ones is finite and positive, since an infinity is too large.
-/

set_option autoImplicit false
set_option relaxedAutoImplicit false

namespace LayerCanvas

namespace Binary

open Float.Model (UnpackedFloat)

variable {a b : Float32}

/-! ### Comparing -/

theorem lt_single_iff :
    a < b ↔ a.toModel.unpack.compare b.toModel.unpack = some .lt := by
  show Float32.lt a b = true ↔ _
  simp [Float32.lt, LT.lt, Float32.Model.lt, UnpackedFloat.lt]

theorem le_single_iff :
    a ≤ b ↔ ∃ o, a.toModel.unpack.compare b.toModel.unpack = some o ∧ o.isLE = true := by
  have hle : a ≤ b ↔ (a.toModel.unpack.compare b.toModel.unpack).any (·.isLE) = true := by
    show decide (Float32.Model.le a.toModel b.toModel = true) = true ↔ _
    rw [decide_eq_true_iff]
    rfl
  rw [hle, Option.any_eq_true]

/-- The units of a single-precision number, with its sign. -/
def singleValue (a : Float32) : Int := valueIn .binary32 a.toModel.unpack

theorem isNumberIn_single (h : a.toModel.unpack ≠ .notANumber) :
    IsNumberIn .binary32 a.toModel.unpack := isNumberIn_unpack (by decide) h

theorem compare_single (ha : IsNumberIn .binary32 a.toModel.unpack)
    (hb : IsNumberIn .binary32 b.toModel.unpack) :
    a.toModel.unpack.compare b.toModel.unpack = some (compare (singleValue a) (singleValue b)) :=
  (compare_valueIn (by decide) ha hb).symm

/-- What is equal to itself is a number, and nothing else is. -/
theorem isNumber_single_iff :
    Scalar.isNumber a = true ↔ IsNumberIn .binary32 a.toModel.unpack := by
  have hbeq : Scalar.isNumber a = UnpackedFloat.beq a.toModel.unpack a.toModel.unpack := rfl
  rw [hbeq]
  constructor
  · intro h
    refine isNumberIn_single fun hnan ↦ ?_
    rw [hnan] at h
    cases h
  · intro h
    rw [UnpackedFloat.beq, compare_single h h, Int.compare_eq_eq.mpr rfl]
    rfl

theorem isNumber_of_le_single (h : a ≤ b) :
    IsNumberIn .binary32 a.toModel.unpack ∧ IsNumberIn .binary32 b.toModel.unpack := by
  obtain ⟨o, ho, -⟩ := le_single_iff.mp h
  constructor
  · refine isNumberIn_single fun hnan ↦ ?_
    simp [hnan, UnpackedFloat.compare] at ho
  · refine isNumberIn_single fun hnan ↦ ?_
    cases hx : a.toModel.unpack <;> simp [hx, hnan, UnpackedFloat.compare] at ho

theorem lt_single_iff_value (ha : IsNumberIn .binary32 a.toModel.unpack)
    (hb : IsNumberIn .binary32 b.toModel.unpack) : a < b ↔ singleValue a < singleValue b := by
  rw [lt_single_iff, compare_single ha hb, Option.some.injEq, Int.compare_eq_lt]

theorem le_single_iff_value (ha : IsNumberIn .binary32 a.toModel.unpack)
    (hb : IsNumberIn .binary32 b.toModel.unpack) : a ≤ b ↔ singleValue a ≤ singleValue b := by
  rw [le_single_iff, compare_single ha hb]
  simp only [Option.some.injEq, exists_eq_left', Int.isLE_compare]

theorem beq_single_iff_value (ha : IsNumberIn .binary32 a.toModel.unpack)
    (hb : IsNumberIn .binary32 b.toModel.unpack) :
    (a == b) = true ↔ singleValue a = singleValue b := by
  show UnpackedFloat.beq a.toModel.unpack b.toModel.unpack = true ↔ _
  rw [UnpackedFloat.beq, compare_single ha hb]
  simp

theorem isNumber_of_lt_single (h : a < b) :
    IsNumberIn .binary32 a.toModel.unpack ∧ IsNumberIn .binary32 b.toModel.unpack :=
  isNumber_of_le_single (le_single_iff.mpr ⟨.lt, lt_single_iff.mp h, rfl⟩)

theorem lt_single_trans {c : Float32} (hab : a < b) (hbc : b < c) : a < c := by
  obtain ⟨ha, hb⟩ := isNumber_of_lt_single hab
  obtain ⟨-, hc⟩ := isNumber_of_lt_single hbc
  rw [lt_single_iff_value ha hb] at hab
  rw [lt_single_iff_value hb hc] at hbc
  rw [lt_single_iff_value ha hc]
  omega

/-- Of two numbers one is at most the other. -/
theorem le_single_of_not_lt (ha : Scalar.isNumber a = true) (hb : Scalar.isNumber b = true)
    (h : ¬ b < a) : a ≤ b := by
  have ha' := isNumber_single_iff.mp ha
  have hb' := isNumber_single_iff.mp hb
  rw [lt_single_iff_value hb' ha'] at h
  rw [le_single_iff_value ha' hb']
  omega

/-! ### Finite and positive numbers -/

theorem isNumberIn_of_isFinite (h : Scalar.isFinite a = true) :
    IsNumberIn .binary32 a.toModel.unpack := by
  rw [isFinite_single_eq] at h
  refine isNumberIn_single fun hnan ↦ ?_
  simp [hnan, UnpackedFloat.isFinite] at h

theorem isFinite_of_isPositive_single (h : Scalar.isPositive a = true) :
    Scalar.isFinite a = true := (Bool.and_eq_true_iff.mp h).1

/-- A finite number is equal to itself. -/
theorem isNumber_of_isPositive_single (h : Scalar.isPositive a = true) :
    Scalar.isNumber a = true :=
  isNumber_single_iff.mpr (isNumberIn_of_isFinite (isFinite_of_isPositive_single h))

theorem ne_zero_of_isPositive_single (h : Scalar.isPositive a = true) :
    (a == Scalar.ofNat 0) = false := by
  obtain ⟨m, e, hm, ha⟩ := exists_of_isPositive_single h
  show UnpackedFloat.beq a.toModel.unpack (Scalar.ofNat 0 : Float32).toModel.unpack = false
  rw [ha]
  rfl

/-- What lies between two finite and positive numbers is finite and positive. -/
theorem isPositive_of_between_single {low high : Float32} (hlow : Scalar.isPositive low = true)
    (hhigh : Scalar.isPositive high = true) (hle : low ≤ a) (hge : a ≤ high) :
    Scalar.isPositive a = true := by
  obtain ⟨m₁, e₁, h₁, hlow⟩ := exists_of_isPositive_single hlow
  obtain ⟨m₂, e₂, h₂, hhigh⟩ := exists_of_isPositive_single hhigh
  rw [le_single_iff, hlow] at hle
  rw [le_single_iff, hhigh] at hge
  cases ha : a.toModel.unpack with
  | notANumber => simp [ha, UnpackedFloat.compare] at hle
  | infinity s =>
    cases s with
    | positive => simp [ha, UnpackedFloat.compare] at hge
    | negative => simp [ha, UnpackedFloat.compare] at hle
  | zero s => simp [ha, UnpackedFloat.compare] at hle
  | finite s m e hm =>
    cases s with
    | positive => exact isPositive_of_unpack ha
    | negative => simp [ha, UnpackedFloat.compare] at hle

/-! ### The unit interval -/

theorem not_half_lt_of_lt_zero (h : a < Scalar.ofNat 0) : ¬ 0.5 < a := fun hhalf ↦
  absurd (lt_single_trans hhalf h) (by decide +kernel)

theorem half_lt_of_one_lt (h : Scalar.ofNat 1 < a) : 0.5 < a :=
  lt_single_trans (by decide +kernel) h

/-- Clamping to the unit interval keeps what is above a half above it, and nothing else gets there.
-/
theorem half_lt_clamp_single_iff (x : Float32) : 0.5 < Scalar.clamp 0 1 x ↔ 0.5 < x := by
  unfold Scalar.clamp
  split_ifs with hzero hone
  · exact iff_of_false (by decide +kernel) (not_half_lt_of_lt_zero hzero)
  · exact iff_of_true (by decide +kernel) (half_lt_of_one_lt hone)
  · rfl

end Binary

open Binary

instance : Limits Float32 where
  isNumber_of_isPositive _ := isNumber_of_isPositive_single
  ne_zero_of_isPositive _ := ne_zero_of_isPositive_single
  isPositive_one := by decide +kernel
  le_of_lt _ _ h := le_single_iff.mpr ⟨.lt, lt_single_iff.mp h, rfl⟩
  le_of_not_lt _ _ ha hb :=
    le_single_of_not_lt (isNumber_of_isPositive_single ha) (isNumber_of_isPositive_single hb)
  isPositive_of_between _ _ _ := isPositive_of_between_single

end LayerCanvas
