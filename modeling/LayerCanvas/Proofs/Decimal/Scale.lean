import LayerCanvas.Proofs.Binary.Narrowing

/-!
A significand with a power of ten, as it is read. What is read is finite. It is read if the power is
negative, and otherwise if the number stays below the end of the reals that round to the largest
number but one: the largest significand is tried for each power of ten, and of a smaller one the
product is smaller.
-/

set_option autoImplicit false
set_option relaxedAutoImplicit false

namespace LayerCanvas.Numeral

open Binary

variable {n : Nat} {exponent : Int}

/-! ### Zero and negative powers -/

theorem zero_mul_powerOfTen {k : Nat} (hk : k ≤ 308) :
    (Float.ofNat 0 * powerOfTen k).toModel.unpack = .zero .positive := by
  obtain ⟨m, e, h, hten, -⟩ := holds_powerOfTen hk
  change (Float.Model.pack (.mul .binary64 (.zero .positive)
    (powerOfTen k).toModel.unpack)).unpack = _
  rw [hten]
  exact unpack_pack_zero .positive

theorem scale?_zero (h : 0 ≤ exponent) :
    ∃ x, scale? 0 exponent = some x ∧ x.toModel.unpack = .zero .positive := by
  unfold scale?
  simp only [h, if_true]
  split_ifs with hlarge hfinite
  · exact ⟨_, rfl, rfl⟩
  · exact ⟨_, rfl, zero_mul_powerOfTen (by omega)⟩
  · rw [isFinite_eq, zero_mul_powerOfTen (by omega)] at hfinite
    exact absurd rfl hfinite

theorem scale?_of_neg (hn : n < 2 ^ 64) (h : exponent < 0) :
    ∃ x, scale? n exponent = some x ∧ AtMost x 67 := by
  have hsignificand := atMost_ofNat hn
  have htop : AtMost (Float.ofNat n / powerOfTen 308) 66 :=
    hsignificand.div (holds_powerOfTen le_rfl) (by positivity) (by decide) (by decide)
  unfold scale?
  simp only [show ¬ 308 < exponent by omega, show ¬ 0 ≤ exponent by omega, if_false]
  split_ifs with hone htwo
  · have hdiv : AtMost (Float.ofNat n / powerOfTen (-exponent).toNat) 66 :=
      hsignificand.div (holds_powerOfTen (by omega)) (by positivity) (by decide) (by decide)
    exact ⟨_, rfl, hdiv.mono (by decide)⟩
  · exact ⟨_, rfl, htop.div (holds_powerOfTen (by omega)) (by positivity) (by decide) (by decide)⟩
  · exact ⟨_, rfl, htop.div (holds_powerOfTen le_rfl) (by positivity) (by decide) (by decide)⟩

/-- What is read is finite. -/
theorem isFinite_of_scale? {x : Float} (hn : n < 2 ^ 64) (h : scale? n exponent = some x) :
    Scalar.isFinite x = true := by
  rcases lt_or_ge exponent 0 with hneg | hpos
  · obtain ⟨y, hy, hfinite⟩ := scale?_of_neg hn hneg
    obtain rfl := Option.some.inj (hy.symm.trans h)
    exact hfinite.isFinite
  · unfold scale? at h
    simp only [hpos, if_true] at h
    split_ifs at h with hlarge hzero hfinite
    · obtain rfl := Option.some.inj h
      exact (atMost_ofNat hn).isFinite
    · obtain rfl := Option.some.inj h
      exact hfinite

/-- A quotient that is not too small is read as a positive number. -/
theorem scale?_of_le {k j : Nat} (hn : 0 < n) (hlt : n < 2 ^ 64) (hk : 0 < k) (hk' : k ≤ 308)
    (hj : j ≤ 1000) (hle : 10 ^ k ≤ n * 2 ^ j) :
    ∃ x m e, ∃ h : Canonical m e, scale? n (-k) = some x ∧
      x.toModel.unpack = .finite .positive m e h.pos ∧
      -(j : Int) - 1 ≤ Float.Model.totalExponent m e := by
  have hlog : n.log2 < 64 := log2_lt_of_lt (by decide) hlt
  obtain ⟨m, e, h, hdiv, hplace⟩ := place_div (holds_ofNat hn hlt) (holds_powerOfTen hk') hn
    (by positivity) (by omega) hj hle
  refine ⟨_, m, e, h, ?_, hdiv, hplace⟩
  unfold scale?
  simp only [show ¬ 308 < -(k : Int) by omega, show ¬ 0 ≤ -(k : Int) by omega,
    show -308 ≤ -(k : Int) by omega, if_false, if_true, Int.neg_neg, Int.toNat_natCast]

/-! ### Powers that are not negative -/

/-- The largest significand of at most seventeen digits that stays below a bound. -/
def most (bound k : Nat) : Nat := min (10 ^ 17) (bound / 10 ^ k)

theorem le_most {bound k : Nat} (hn : n ≤ 10 ^ 17) (h : n * 10 ^ k ≤ bound) : n ≤ most bound k :=
  le_min hn ((Nat.le_div_iff_mul_le (by positivity)).mpr h)

theorem most_lt (bound k : Nat) : most bound k < 2 ^ 64 :=
  (min_le_left _ _).trans_lt (by decide)

theorem eq_zero_of_mul_le {bound j k : Nat} (h : n * 10 ^ k ≤ bound) (hj : j ≤ k)
    (hbound : bound < 10 ^ j) : n = 0 := by
  by_contra hn
  have hpower : 10 ^ j ≤ n * 10 ^ k :=
    (Nat.pow_le_pow_right (by decide) hj).trans (Nat.le_mul_of_pos_left _ (Nat.pos_of_ne_zero hn))
  omega

theorem scale?_eq_mul (h : 0 ≤ exponent) (hle : exponent ≤ 308)
    (hfinite : Scalar.isFinite (Float.ofNat n * powerOfTen exponent.toNat) = true) :
    scale? n exponent = some (Float.ofNat n * powerOfTen exponent.toNat) := by
  unfold scale?
  simp only [show ¬ 308 < exponent by omega, h, hfinite, if_false, if_true]

/-- The end of the reals that round to the largest double but one. -/
def boundDouble : Nat := (2 ^ 54 - 3) * 2 ^ 970

/-- The end of the reals that round to the largest single-precision number but one. -/
def boundSingle : Nat := (2 ^ 25 - 3) * 2 ^ 103

theorem isFinite_most_double : ∀ i < 19,
    Scalar.isFinite (Float.ofNat (most boundDouble (290 + i)) * powerOfTen (290 + i)) = true := by
  decide +kernel

/-- A significand with a power of ten that stays below the largest double is read. -/
theorem exists_scale?_double (hlt : n < 2 ^ 64)
    (h : 0 ≤ exponent → n ≤ 10 ^ 17 ∧ n * 10 ^ exponent.toNat ≤ boundDouble) :
    ∃ x, scale? n exponent = some x := by
  rcases lt_or_ge exponent 0 with hneg | hpos
  · obtain ⟨x, hx, -⟩ := scale?_of_neg hlt hneg
    exact ⟨x, hx⟩
  · obtain ⟨hdigits, hbound⟩ := h hpos
    rcases Nat.eq_zero_or_pos n with rfl | hn
    · obtain ⟨x, hx, -⟩ := scale?_zero hpos
      exact ⟨x, hx⟩
    · have hle : exponent ≤ 308 := by
        by_contra hlarge
        have hzero := eq_zero_of_mul_le (j := 309) hbound (by omega) (by decide +kernel)
        omega
      -- Small powers of ten are no larger than one for which all significands are read.
      obtain ⟨i, hi, hk⟩ : ∃ i < 19, max exponent.toNat 290 = 290 + i :=
        ⟨max exponent.toNat 290 - 290, by omega, by omega⟩
      have hmost : n ≤ most boundDouble (290 + i) := by
        rcases Nat.le_total exponent.toNat 290 with hsmall | hlarge
        · have hall : most boundDouble 290 = 10 ^ 17 := by decide +kernel
          rw [show 290 + i = 290 by omega, hall]
          exact hdigits
        · exact le_most hdigits (by rwa [show 290 + i = exponent.toNat by omega])
      obtain ⟨u, -, hfinite, -, -⟩ := mul_powerOfTen hn hmost (most_lt _ _)
        (show exponent.toNat ≤ 290 + i by omega) (by omega) (isFinite_most_double i hi)
      exact ⟨_, scale?_eq_mul hpos hle hfinite.isFinite⟩

/-! ### Numbers for single precision -/

/-- The largest single-precision number, in double precision. -/
def largestSingle : Float :=
  .ofModel (.pack (.finite .positive ((2 ^ 24 - 1) * 2 ^ 29) 75 (by decide)))

theorem isFinite_most_single : ∀ k < 39,
    Scalar.isFinite (Float.ofNat (most boundSingle k) * powerOfTen k) = true ∧
      Float.ofNat (most boundSingle k) * powerOfTen k ≤ largestSingle := by
  decide +kernel

theorem units_le_of_le_largestSingle {x : Float} {u : Nat} (hx : HasUnits x u)
    (h : x ≤ largestSingle) : u ≤ units ((2 ^ 24 - 1) * 2 ^ 29) 75 := by
  obtain ⟨m, e, hcanonical, hx, rfl⟩ := hx
  have hlargest : largestSingle.toModel.unpack =
      .finite .positive ((2 ^ 24 - 1) * 2 ^ 29) 75 canonical_largestSingle.pos :=
    (unpack_pack_canonical canonical_largestSingle .positive).trans (if_pos (by decide))
  obtain ⟨hnumber, hnumber'⟩ := isNumber_of_le h
  have hvalue := (le_iff_value hnumber hnumber').mp h
  rw [hx, hlargest] at hvalue
  exact Int.ofNat_le.mp hvalue

/-- A significand with a power of ten that stays below the largest single-precision number is read
as a number that single precision can hold. -/
theorem exists_scale?_single (hlt : n < 2 ^ 64)
    (h : 0 ≤ exponent → n ≤ 10 ^ 17 ∧ n * 10 ^ exponent.toNat ≤ boundSingle) :
    ∃ x, scale? n exponent = some x ∧ WithinSingle x ∧ (0 < n →
      (exponent < 0 → -308 ≤ exponent ∧ 10 ^ (-exponent).toNat ≤ n * 2 ^ 147) →
        AboveSingle x) := by
  rcases lt_or_ge exponent 0 with hneg | hpos
  · obtain ⟨x, hx, hplace⟩ := scale?_of_neg hlt hneg
    refine ⟨x, hx, withinSingle_of_atMost hplace (by decide), fun hn hlow ↦ ?_⟩
    obtain ⟨hrange, hle⟩ := hlow hneg
    obtain ⟨y, m, e, hcanonical, hy, hunpack, hplace⟩ :=
      scale?_of_le hn hlt (by omega) (by omega) (by decide) hle
    rw [show -((-exponent).toNat : Int) = exponent by omega] at hy
    obtain rfl := Option.some.inj (hx.symm.trans hy)
    refine ⟨m, e, hcanonical, hunpack, ?_⟩
    omega
  · obtain ⟨hdigits, hbound⟩ := h hpos
    rcases Nat.eq_zero_or_pos n with rfl | hn
    · obtain ⟨x, hx, hzero⟩ := scale?_zero hpos
      exact ⟨x, hx, Or.inl hzero, fun hn ↦ absurd hn (Nat.lt_irrefl 0)⟩
    · have hle : exponent.toNat < 39 := by
        by_contra hlarge
        have hzero := eq_zero_of_mul_le (j := 39) hbound (by omega) (by decide +kernel)
        omega
      obtain ⟨hfinite, hlargest⟩ := isFinite_most_single _ hle
      obtain ⟨u, u', hu, hu', hone, huu'⟩ := mul_powerOfTen hn (le_most hdigits hbound)
        (most_lt _ _) le_rfl (by omega) hfinite
      refine ⟨_, scale?_eq_mul hpos (by omega) hu.isFinite, Or.inr ?_,
        fun _ _ ↦ aboveSingle_of_one_le hu hone⟩
      obtain ⟨m, e, hcanonical, hx, rfl⟩ := hu
      exact ⟨m, e, hcanonical, hx, huu'.trans (units_le_of_le_largestSingle hu' hlargest)⟩

end LayerCanvas.Numeral
