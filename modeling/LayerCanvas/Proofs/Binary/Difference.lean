import LayerCanvas.Proofs.Binary.Clock

/-!
Differences of double-precision numbers. A number that is read from a word is a whole number of
units, and a difference has the units of the exact difference, cut to the bits that a word holds.
Cutting keeps the order, so of two numbers that are taken away from a third one the smaller one
leaves no less.
-/

set_option autoImplicit false
set_option relaxedAutoImplicit false

namespace LayerCanvas

namespace Binary

open Float.Model (Format UnpackedFloat)
open Float.Model.UnpackedFloat

/-! ### Units -/

/-- The first power of two that is larger than every finite number, in units. -/
def limit : Nat := units (2 ^ 52) 972

/-- The units of a number, with its sign. -/
def value : UnpackedFloat → Int
  | .notANumber => 0
  | .infinity s => s.apply limit
  | .zero _ => 0
  | .finite s m e _ => s.apply (units m e)

/-- The numbers that are read from a word. -/
inductive IsNumber : UnpackedFloat → Prop
  | infinity (s : Sign) : IsNumber (.infinity s)
  | zero (s : Sign) : IsNumber (.zero s)
  | finite (s : Sign) {m : Nat} {e : Int} (h : Canonical m e) (he : e ≤ 971) :
    IsNumber (.finite s m e h.pos)

theorem isNumber_unpack {x : Float.Model} (h : x.unpack ≠ .notANumber) : IsNumber x.unpack := by
  cases hx : x.unpack with
  | notANumber => exact absurd hx h
  | infinity s => exact .infinity s
  | zero s => exact .zero s
  | finite s m e hm => exact .finite s (canonical_unpack hx) (unpack_finite_exponent_le hx)

theorem units_lt_limit {m : Nat} {e : Int} (h : Canonical m e) (he : e ≤ 971) :
    units m e < limit :=
  units_lt_of_lt h ⟨by decide, by decide, by decide, Or.inl le_rfl⟩ (by omega)

theorem limit_le_units {m : Nat} {e : Int} (h : Canonical m e) (he : 972 ≤ e) :
    limit ≤ units m e :=
  Nat.mul_le_mul (h.full.resolve_right (by omega)) (Nat.pow_le_pow_right (by decide) (by omega))

theorem endExponent_binary64 : endExponent .binary64 = 972 := rfl

theorem limitIn_binary64 : limitIn .binary64 = limit := by
  rw [limitIn, endExponent_binary64, unitsIn_binary64, limit]

theorem valueIn_binary64 (x : UnpackedFloat) : valueIn .binary64 x = value x := by
  cases x <;> simp only [valueIn, value, limitIn_binary64, unitsIn_binary64]

theorem IsNumber.isNumberIn {x : UnpackedFloat} (h : IsNumber x) : IsNumberIn .binary64 x := by
  cases h with
  | infinity s => exact .infinity s
  | zero s => exact .zero s
  | finite s h he => exact .finite s h.fits (by rw [endExponent_binary64]; omega)

/-! ### Comparing -/

/-- Numbers compare as their units do. -/
theorem compare_eq {x y : UnpackedFloat} (hx : IsNumber x) (hy : IsNumber y) :
    some (compare (value x) (value y)) = x.compare y := by
  rw [← valueIn_binary64, ← valueIn_binary64]
  exact compare_valueIn (by decide) hx.isNumberIn hy.isNumberIn

theorem lt_iff_value {a b : Float} (ha : IsNumber a.toModel.unpack)
    (hb : IsNumber b.toModel.unpack) :
    a < b ↔ value a.toModel.unpack < value b.toModel.unpack := by
  rw [lt_iff, ← compare_eq ha hb, Option.some.injEq, Int.compare_eq_lt]

theorem le_iff_value {a b : Float} (ha : IsNumber a.toModel.unpack)
    (hb : IsNumber b.toModel.unpack) :
    a ≤ b ↔ value a.toModel.unpack ≤ value b.toModel.unpack := by
  rw [le_iff, ← compare_eq ha hb]
  simp only [Option.some.injEq, exists_eq_left', Int.isLE_compare]

/-- What fails to be a number compares with nothing. -/
theorem isNumber_of_le {a b : Float} (h : a ≤ b) :
    IsNumber a.toModel.unpack ∧ IsNumber b.toModel.unpack := by
  obtain ⟨o, ho, -⟩ := le_iff.mp h
  constructor
  · refine isNumber_unpack fun hnan ↦ ?_
    simp [hnan, UnpackedFloat.compare] at ho
  · refine isNumber_unpack fun hnan ↦ ?_
    cases hx : a.toModel.unpack <;> simp [hx, hnan, UnpackedFloat.compare] at ho

theorem isNumber_of_isFinite {a : Float} (h : Scalar.isFinite a = true) :
    IsNumber a.toModel.unpack := by
  rw [isFinite_eq] at h
  refine isNumber_unpack fun hnan ↦ ?_
  simp [hnan, UnpackedFloat.isFinite] at h

/-! ### Taking away -/

/-- What is packed is read again, unless it is too large. -/
theorem unpack_pack_canonical {m : Nat} {e : Int} (h : Canonical m e) (s : Sign) :
    (Float.Model.pack (.finite s m e h.pos)).unpack =
      if e ≤ 971 then .finite s m e h.pos else .infinity s := by
  have hrange : e < endExponent .binary64 ↔ e ≤ 971 := by
    rw [endExponent_binary64]
    omega
  refine (unpack_pack_fits h.fits s).trans ?_
  simp only [hrange]

theorem isNumber_sub {a b : Float} (ha : Scalar.isFinite a = true)
    (hb : Scalar.isFinite b = true) : IsNumber (a - b).toModel.unpack :=
  isNumber_unpack (unpack_sub_ne_notANumber ha hb)

/-- A difference of finite numbers is the exact difference, as a word holds it. -/
theorem value_sub_of_isFinite {a b : Float} (ha : Scalar.isFinite a = true)
    (hb : Scalar.isFinite b = true) :
    value (a - b).toModel.unpack =
      heldIntIn .binary64 (value a.toModel.unpack - value b.toModel.unpack) := by
  have hsub := packedValue_sub (by decide) (isNumber_of_isFinite ha).isNumberIn
    (isNumber_of_isFinite hb).isNumberIn (isFinite_eq a ▸ ha) (isFinite_eq b ▸ hb)
  rwa [packedValue, valueIn_binary64, valueIn_binary64, valueIn_binary64] at hsub

/-- Of two numbers that are taken away from a third one the smaller one leaves no less. -/
theorem sub_le_sub_left {a b c : Float} (ha : Scalar.isFinite a = true)
    (hb : Scalar.isFinite b = true) (hc : Scalar.isFinite c = true) (h : a ≤ b) :
    c - b ≤ c - a := by
  have hle := (le_iff_value (isNumber_of_isFinite ha) (isNumber_of_isFinite hb)).mp h
  rw [le_iff_value (isNumber_sub hc hb) (isNumber_sub hc ha), value_sub_of_isFinite hc hb,
    value_sub_of_isFinite hc ha]
  exact heldIntIn_mono _ (by omega)

/-- Of two numbers from which a third one is taken away the smaller one leaves no more. -/
theorem sub_le_sub_right {a b c : Float} (ha : Scalar.isFinite a = true)
    (hb : Scalar.isFinite b = true) (hc : Scalar.isFinite c = true) (h : a ≤ b) :
    a - c ≤ b - c := by
  have hle := (le_iff_value (isNumber_of_isFinite ha) (isNumber_of_isFinite hb)).mp h
  rw [le_iff_value (isNumber_sub ha hc) (isNumber_sub hb hc), value_sub_of_isFinite ha hc,
    value_sub_of_isFinite hb hc]
  exact heldIntIn_mono _ (by omega)

end Binary

open Binary

instance : Chronology Float where
  isNumber_of_isFinite a ha := by
    have hnumber := isNumber_of_isFinite ha
    show Float.Model.UnpackedFloat.beq _ _ = true
    rw [Float.Model.UnpackedFloat.beq, ← compare_eq hnumber hnumber, Int.compare_eq_eq.mpr rfl]
    rfl
  le_of_not_lt a b ha hb h := by
    rw [lt_iff_value (isNumber_of_isFinite hb) (isNumber_of_isFinite ha)] at h
    rw [le_iff_value (isNumber_of_isFinite ha) (isNumber_of_isFinite hb)]
    omega
  le_of_lt a b h := le_iff.mpr ⟨.lt, lt_iff.mp h, rfl⟩
  le_trans a b c hab hbc := by
    obtain ⟨ha, hb⟩ := isNumber_of_le hab
    obtain ⟨-, hc⟩ := isNumber_of_le hbc
    rw [le_iff_value ha hb] at hab
    rw [le_iff_value hb hc] at hbc
    rw [le_iff_value ha hc]
    omega
  not_lt_of_le a b h := by
    obtain ⟨ha, hb⟩ := isNumber_of_le h
    rw [le_iff_value ha hb] at h
    rw [lt_iff_value hb ha]
    omega
  sub_le_sub_left _ _ _ ha hb hc h := sub_le_sub_left ha hb hc h

instance : Passage Float where
  lt_of_le_of_lt a b c hab hbc := by
    obtain ⟨ha, hb⟩ := isNumber_of_le hab
    obtain ⟨-, hc⟩ := isNumber_of_le (Chronology.le_of_lt b c hbc)
    rw [le_iff_value ha hb] at hab
    rw [lt_iff_value hb hc] at hbc
    rw [lt_iff_value ha hc]
    omega
  sub_le_sub_right _ _ _ ha hb hc h := sub_le_sub_right ha hb hc h

end LayerCanvas
