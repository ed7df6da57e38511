import LayerCanvas.Proofs.Binary.Close
import LayerCanvas.Proofs.Decimal.Digits

/-!
How well a numeral is read. A whole number that a machine integer holds is rounded once. Of any
other number so many digits are read as fit into a word, and the significand is converted and then
multiplied or divided by a power of ten. Each of these steps is a rounding, so what is read is the
double nearest to a number that is seven roundings at most from the one that is written. There is no
result if that double is infinite.
-/

set_option autoImplicit false
set_option relaxedAutoImplicit false

namespace LayerCanvas

open Float.Model (Format UnpackedFloat)
open Float.Model.UnpackedFloat (Sign)

namespace Binary

variable {x y : Float} {n k : Nat} {q : ℚ}

/-! ### Natural numbers and powers of ten -/

theorem HasUnits.exists_fits {u : Nat} (h : HasUnits x u) :
    ∃ m e, ∃ h : Fits .binary64 m e, e < endExponent .binary64 ∧
      x.toModel.unpack = .finite .positive m e h.pos ∧ unitsIn .binary64 m e = u := by
  obtain ⟨m, e, hcanonical, hx, hunits⟩ := h
  have he := unpack_finite_exponent_le hx
  exact ⟨m, e, hcanonical.fits, by rw [endExponent_binary64]; omega, hx, hunits⟩

theorem HasUnits.magnitude {u : Nat} (h : HasUnits x u) : Magnitude .binary64 x.toModel.unpack := by
  obtain ⟨m, e, hfits, he, hx, -⟩ := h.exists_fits
  rw [hx]
  exact .finite hfits he

/-- What stands for a natural number is held in its place. -/
theorem isHeld_of_holds (h : Holds x n) : IsHeld .binary64 x.toModel.unpack n := by
  obtain ⟨m, e, hfits, he, hx, hunits⟩ := h.exists_fits
  have hlimit := unitsIn_lt_limitIn (by decide) hfits he
  have hsize : (n : ℚ) = (units n 0 : Nat) * 2 ^ Format.binary64.minExponent := by
    rw [← unitsIn_binary64, ← quantity_one n (by decide), quantity, Nat.cast_one, div_one,
      zpow_zero, mul_one]
  rw [← roundedIn_binary64] at hunits
  rw [hx]
  refine ⟨.finite _ hfits he, ?_⟩
  rw [hsize, heldSize_units, heldIn, ← hunits, Nat.min_eq_left hlimit.le]
  rfl

theorem isHeld_zero (f : Format) (s : Sign) : IsHeld f (.zero s) 0 :=
  ⟨.zero s, by rw [heldSize_zero]; rfl⟩

theorem magnitude_ofNat (hn : n < 2 ^ 64) : Magnitude .binary64 (Float.ofNat n).toModel.unpack := by
  rcases Nat.eq_zero_or_pos n with rfl | hpos
  · exact .zero .positive
  · exact (holds_ofNat hpos hn).magnitude

theorem isHeld_ofNat (hn : n < 2 ^ 64) : IsHeld .binary64 (Float.ofNat n).toModel.unpack n := by
  rcases Nat.eq_zero_or_pos n with rfl | hpos
  · rw [Nat.cast_zero]
    exact isHeld_zero _ .positive
  · exact isHeld_of_holds (holds_ofNat hpos hn)

theorem two_pow_le_natCast (hn : 0 < n) : (2 : ℚ) ^ (-1022 : Int) ≤ n := by
  have hone : (1 : ℚ) ≤ n := mod_cast hn
  exact (zpow_le_one_of_nonpos₀ (by norm_num) (by decide)).trans hone

theorem IsHeld.size_eq_zero (h : IsHeld .binary64 x.toModel.unpack 0) : size x = 0 := by
  rw [size, h.sizeIn_eq, heldSize_zero, Nat.cast_zero, zero_mul]

theorem close_ofNat (hn : n < 2 ^ 64) : Close 1 (size (Float.ofNat n)) n := by
  rcases Nat.eq_zero_or_pos n with rfl | hpos
  · rw [Nat.cast_zero, IsHeld.size_eq_zero (isHeld_zero _ .positive)]
    exact (Close.refl 0).mono le_rfl le_rfl (by decide)
  · exact (isHeld_ofNat hn).close_one (magnitude_ofNat hn) (two_pow_le_natCast hpos)

theorem close_powerOfTen (hk : k ≤ 308) : Close 1 (size (Numeral.powerOfTen k)) (10 ^ k) := by
  have hholds := holds_powerOfTen hk
  have hcast : ((10 ^ k : Nat) : ℚ) = 10 ^ k := by push_cast; rfl
  rw [← hcast]
  exact (isHeld_of_holds hholds).close_one hholds.magnitude (two_pow_le_natCast (by positivity))

theorem size_powerOfTen_pos (hk : k ≤ 308) : 0 < size (Numeral.powerOfTen k) :=
  (close_powerOfTen hk).symm.pos (by positivity)

/-- A number whose bits fit the significand is not cut. -/
theorem roundedIn_mul_two_pow {f : Format} {m : Nat} (hm : m < 2 ^ f.mantissaBits) (j : Nat) :
    roundedIn f (m * 2 ^ j) = m * 2 ^ j := by
  rcases Nat.eq_zero_or_pos m with rfl | hpos
  · rw [Nat.zero_mul, roundedIn, Nat.log2_zero, Nat.zero_sub, cutBy_zero, Nat.zero_mul]
  have hbits := mantissaBits_eq f
  have hlog : m.log2 < f.mantissaBits := log2_lt_of_lt (by omega) hm
  have hcut : (m * 2 ^ j).log2 - f.mantissaBitsWithoutImplicit ≤ j := by
    rw [log2_mul_two_pow hpos.ne']
    omega
  rw [roundedIn]
  generalize (m * 2 ^ j).log2 - f.mantissaBitsWithoutImplicit = cut at hcut ⊢
  obtain ⟨i, rfl⟩ := Nat.exists_eq_add_of_le' hcut
  have hsplit : m * 2 ^ (i + cut) = m * 2 ^ i * 2 ^ cut := by ring
  have hkept : cutBy (m * 2 ^ i * 2 ^ cut) (0 + cut) = m * 2 ^ i := by rw [cutBy_mul, cutBy_zero]
  rw [Nat.zero_add] at hkept
  rw [hsplit, hkept]

/-- A natural number whose bits fit the significand is held as it is. -/
theorem IsHeld.size_eq {m j : Nat} (h : IsHeld .binary64 x.toModel.unpack (m * 2 ^ j : Nat))
    (hm : m < 2 ^ 53) (hj : j ≤ 900) : size x = (m * 2 ^ j : Nat) := by
  have hsize : ((m * 2 ^ j : Nat) : ℚ) =
      (m * 2 ^ (j + 1074) : Nat) * 2 ^ Format.binary64.minExponent := by
    have hpower : (2 : ℚ) ^ 1074 * 2 ^ Format.binary64.minExponent = 1 := by
      rw [← zpow_natCast, ← two_pow_add]
      rfl
    rw [pow_add, ← mul_assoc, Nat.cast_mul (m * 2 ^ j), Nat.cast_pow, Nat.cast_ofNat, mul_assoc,
      hpower, mul_one]
  have hlimit : m * 2 ^ (j + 1074) ≤ limitIn .binary64 := by
    calc m * 2 ^ (j + 1074) ≤ 2 ^ 53 * 2 ^ (900 + 1074) :=
          Nat.mul_le_mul hm.le (Nat.pow_le_pow_right (by decide) (by omega))
      _ ≤ limitIn .binary64 := by decide +kernel
  have hheld : heldIn .binary64 (m * 2 ^ (j + 1074)) = m * 2 ^ (j + 1074) := by
    rw [heldIn, roundedIn_mul_two_pow hm, Nat.min_eq_left hlimit]
  rw [size, h.sizeIn_eq, hsize, heldSize_units, hheld]

theorem size_ofNat (hn : n < 2 ^ 53) : size (Float.ofNat n) = n := by
  have hheld := isHeld_ofNat (hn.trans (by decide))
  have hsize := IsHeld.size_eq (j := 0) (by rwa [Nat.pow_zero, Nat.mul_one]) hn (by decide)
  rwa [Nat.pow_zero, Nat.mul_one] at hsize

theorem size_powerOfTen (hk : k ≤ 22) : size (Numeral.powerOfTen k) = 10 ^ k := by
  have hsplit : 5 ^ k * 2 ^ k = 10 ^ k := by rw [← Nat.mul_pow]
  have hheld := isHeld_of_holds (holds_powerOfTen (hk.trans (by decide)))
  have hfive : 5 ^ k < 2 ^ 53 := (Nat.pow_le_pow_right (by decide) hk).trans_lt (by decide)
  have hsize := IsHeld.size_eq (by rwa [hsplit]) hfive (by omega)
  rw [hsize, hsplit]
  push_cast
  rfl

/-! ### Products and quotients -/

theorem isHeld_mul (hx : Magnitude .binary64 x.toModel.unpack)
    (hy : Magnitude .binary64 y.toModel.unpack) :
    IsHeld .binary64 (x * y).toModel.unpack (size x * size y) :=
  isHeld_of_packsAs (by decide) (packsAs_mul (by decide) hx hy)

theorem isHeld_div (hx : Magnitude .binary64 x.toModel.unpack) {u : Nat} (hy : HasUnits y u) :
    IsHeld .binary64 (x / y).toModel.unpack (size x / size y) := by
  obtain ⟨m, e, hfits, he, hy', -⟩ := hy.exists_fits
  have hheld := isHeld_of_packsAs (by decide) (packsAs_div (by decide) hx hfits)
  rw [← sizeIn_finite hfits, ← hy'] at hheld
  exact hheld

theorem IsHeld.magnitude (h : IsHeld .binary64 x.toModel.unpack q)
    (hfinite : Scalar.isFinite x = true) : Magnitude .binary64 x.toModel.unpack := by
  refine h.magnitude_or_infinity.resolve_right fun hinfinite ↦ ?_
  rw [isFinite_eq, hinfinite] at hfinite
  cases hfinite

end Binary

namespace Numeral

open Binary
open Digit (value)

variable {n : Nat} {exponent : Int}

/-! ### A significand with a power of ten -/

/-- What is read for a size: the number that a word holds in its place, or nothing if that is
infinite. -/
def IsReading (q : ℚ) : Option Float → Prop
  | some x => Magnitude .binary64 x.toModel.unpack ∧ IsHeld .binary64 x.toModel.unpack q
  | none => IsHeld .binary64 (.infinity .positive) q

theorem mul_zpow_of_nonneg (h : 0 ≤ exponent) :
    (n : ℚ) * 10 ^ exponent = n * 10 ^ exponent.toNat := by
  rw [← zpow_natCast, Int.toNat_of_nonneg h]

theorem mul_zpow_of_neg (h : exponent < 0) :
    (n : ℚ) * 10 ^ exponent = n / 10 ^ (-exponent).toNat := by
  rw [← zpow_natCast, Int.toNat_of_nonneg (by omega), zpow_neg, div_inv_eq_mul]

theorem two_pow_le_ten_pow {j k : Nat} (h : 2 ^ j ≤ 10 ^ k) : (2 : ℚ) ^ j ≤ 10 ^ k := mod_cast h

theorem mul_ten_pow_le_mul_two_pow {a b j k : Nat} (h : a * 10 ^ j ≤ b * 2 ^ k) :
    (a : ℚ) * 10 ^ j ≤ b * 2 ^ k := mod_cast h

/-- Whether a size is a significand with a power of ten up to the roundings of both. Neither of them
is rounded if it is short. -/
structure IsScaled (n : Nat) (exponent : Int) (q : ℚ) : Prop where
  nonneg : 0 ≤ q
  close : Close 6 q (n * 10 ^ exponent)
  exact : n < 2 ^ 53 → exponent.natAbs ≤ 22 → q = n * 10 ^ exponent

theorem isScaled_self (n : Nat) (exponent : Int) : IsScaled n exponent (n * 10 ^ exponent) := by
  have hnonneg : (0 : ℚ) ≤ n * 10 ^ exponent := by positivity
  exact ⟨hnonneg, (Close.refl _).mono hnonneg hnonneg (by decide), fun _ _ ↦ rfl⟩

theorem isReading_mul (hn : n < 2 ^ 64) (h : 0 ≤ exponent) (hle : exponent ≤ 308) :
    ∃ q, IsScaled n exponent q ∧ IsReading q (scale? n exponent) := by
  have hk : exponent.toNat ≤ 308 := by omega
  have hpower := size_powerOfTen_pos hk
  have hfirst : 0 ≤ size (Float.ofNat n) := sizeIn_nonneg (magnitude_ofNat hn)
  have hclose : Close 2 (size (Float.ofNat n) * size (powerOfTen exponent.toNat))
      (n * 10 ^ exponent.toNat) :=
    (close_ofNat hn).mul hfirst hpower.le (Nat.cast_nonneg n) (by positivity) (close_powerOfTen hk)
  have hheld := isHeld_mul (magnitude_ofNat hn) (holds_powerOfTen hk).magnitude
  have hnonneg := mul_nonneg hfirst hpower.le
  refine ⟨_, ⟨hnonneg, ?_, fun hshort hpower ↦ ?_⟩, ?_⟩
  · rw [mul_zpow_of_nonneg h]
    exact hclose.mono hnonneg (by positivity) (by decide)
  · rw [mul_zpow_of_nonneg h, size_ofNat hshort, size_powerOfTen (by omega)]
  · unfold scale?
    simp only [show ¬ 308 < exponent by omega, h, if_false, if_true]
    split_ifs with hfinite
    · exact ⟨hheld.magnitude hfinite, hheld⟩
    · refine hheld.magnitude_or_infinity.elim (fun hmagnitude ↦ ?_) fun hinfinite ↦ ?_
      · exact absurd (isFinite_of_magnitude hmagnitude) hfinite
      · rw [IsReading, ← hinfinite]
        exact hheld

/-- The first power of two that is infinite lies below the first power of ten that is. -/
theorem limit_le : (limitIn .binary64 : ℚ) * 2 ^ Format.binary64.minExponent ≤ 10 ^ 309 := by
  have hlimit : (limitIn .binary64 : ℚ) * 2 ^ Format.binary64.minExponent = 2 ^ (1024 : Int) :=
    limitIn_mul (by decide)
  rw [hlimit]
  exact two_pow_le_ten_pow (j := 1024) (by decide +kernel)

theorem isReading_large (hlarge : 308 < exponent) :
    ∃ q, IsScaled n exponent q ∧ IsReading q (scale? n exponent) := by
  refine ⟨_, isScaled_self n exponent, ?_⟩
  unfold scale?
  simp only [hlarge, if_true]
  split_ifs with hzero
  · rw [hzero, Nat.cast_zero, zero_mul]
    exact ⟨.zero .positive, isHeld_zero _ .positive⟩
  · refine ⟨.infinity .positive, ?_⟩
    have hone : (1 : ℚ) ≤ n := mod_cast Nat.pos_of_ne_zero hzero
    rw [heldSize_eq_limitIn (by decide)]
    · rfl
    · calc (limitIn .binary64 : ℚ) * 2 ^ Format.binary64.minExponent ≤ 10 ^ 309 := limit_le
        _ = 1 * 10 ^ (309 : Int) := by
          rw [one_mul]
          exact (zpow_natCast 10 309).symm
        _ ≤ n * 10 ^ exponent := mul_le_mul hone
          (zpow_le_zpow_right₀ (by norm_num) (by omega)) (by positivity) (Nat.cast_nonneg n)

theorem isReading_div (hn : n < 2 ^ 64) (h : exponent < 0) (hge : -308 ≤ exponent) :
    ∃ q, IsScaled n exponent q ∧ IsReading q (scale? n exponent) := by
  have hk : (-exponent).toNat ≤ 308 := by omega
  have hpower := size_powerOfTen_pos hk
  have hfirst : 0 ≤ size (Float.ofNat n) := sizeIn_nonneg (magnitude_ofNat hn)
  have hclose : Close 2 (size (Float.ofNat n) / size (powerOfTen (-exponent).toNat))
      (n / 10 ^ (-exponent).toNat) :=
    (close_ofNat hn).div hfirst (Nat.cast_nonneg n) hpower (by positivity) (close_powerOfTen hk)
  have hheld := isHeld_div (magnitude_ofNat hn) (holds_powerOfTen hk)
  have hnonneg := div_nonneg hfirst hpower.le
  refine ⟨_, ⟨hnonneg, ?_, fun hshort hpower ↦ ?_⟩, ?_⟩
  · rw [mul_zpow_of_neg h]
    exact hclose.mono hnonneg (by positivity) (by decide)
  · rw [mul_zpow_of_neg h, size_ofNat hshort, size_powerOfTen (by omega)]
  · obtain ⟨x, hx, hfinite⟩ := scale?_of_neg hn h
    have hdiv : scale? n exponent = some (Float.ofNat n / powerOfTen (-exponent).toNat) := by
      unfold scale?
      simp only [show ¬ 308 < exponent by omega, show ¬ 0 ≤ exponent by omega, hge, if_false,
        if_true]
    obtain rfl := Option.some.inj (hx.symm.trans hdiv)
    rw [hx]
    exact ⟨hheld.magnitude hfinite.isFinite, hheld⟩

/-- A positive word is at least one, so two roundings leave a quotient of it above a bound. -/
theorem one_le_of_close {q top bound : ℚ} (hn : 0 < n) (htop : 0 < top) (hq : 0 ≤ q)
    (hclose : Close 2 q (n / top)) (hle : (5 : Nat) * top ≤ (4 : Nat) * bound) : 1 ≤ q * bound := by
  have hslack : slack ^ 2 ≤ 5 / 4 := by norm_num [slack]
  push_cast at hle
  calc (1 : ℚ) ≤ n := mod_cast hn
    _ ≤ q * slack ^ 2 * top := (div_le_iff₀ htop).mp hclose.ge
    _ ≤ q * (5 / 4) * top := by gcongr
    _ = q / 4 * (5 * top) := by ring
    _ ≤ q / 4 * (4 * bound) := by gcongr
    _ = q * bound := by ring

/-- A word below a bound stays below it after six roundings. -/
theorem two_mul_lt_of_close {q top bound : ℚ} (hn : n < 2 ^ 64) (htop : 0 < top)
    (hbound : 0 < bound) (hq : q ≤ n / top * slack ^ 6) (hle : 2 ^ 66 * bound ≤ top) :
    2 * q < bound⁻¹ := by
  have hslack : slack ^ 6 ≤ 2 := by norm_num [slack]
  have hn' : (n : ℚ) < 2 ^ 64 := mod_cast hn
  refine lt_of_mul_lt_mul_right ?_ hbound.le
  rw [inv_mul_cancel₀ hbound.ne']
  calc 2 * q * bound ≤ 2 * (n / top * 2) * bound := by
        have hle' : q ≤ n / top * 2 := hq.trans (by gcongr)
        gcongr
    _ = n * (4 * bound) / top := by ring
    _ < 2 ^ 64 * (4 * bound) / top := by gcongr
    _ = 2 ^ 66 * bound / top := by ring
    _ ≤ 1 := (div_le_one₀ htop).mpr hle

/-- A word divided by the largest power of ten. The quotient can lie at the end of the range. -/
theorem close_div_top (hn : n < 2 ^ 64) :
    Magnitude .binary64 (Float.ofNat n / powerOfTen 308).toModel.unpack ∧
      Close 5 (size (Float.ofNat n / powerOfTen 308)) (n / 10 ^ 308) := by
  have hpower := size_powerOfTen_pos le_rfl
  have hfirst : 0 ≤ size (Float.ofNat n) := sizeIn_nonneg (magnitude_ofNat hn)
  have hheld := isHeld_div (magnitude_ofNat hn) (holds_powerOfTen le_rfl)
  have hclose : Close 2 (size (Float.ofNat n) / size (powerOfTen 308)) (n / 10 ^ 308) :=
    (close_ofNat hn).div hfirst (Nat.cast_nonneg n) hpower (by positivity) (close_powerOfTen le_rfl)
  have hatMost : AtMost (Float.ofNat n / powerOfTen 308) 66 :=
    (atMost_ofNat hn).div (holds_powerOfTen le_rfl) (by positivity) (by decide) (by decide)
  have hmagnitude := hheld.magnitude hatMost.isFinite
  refine ⟨hmagnitude, ?_⟩
  rcases Nat.eq_zero_or_pos n with rfl | hpos
  · rw [IsHeld.size_eq_zero (isHeld_zero _ .positive), zero_div] at hheld
    rw [hheld.size_eq_zero, Nat.cast_zero, zero_div]
    exact (Close.refl 0).mono le_rfl le_rfl (by decide)
  · refine Close.trans (j := 3) (hheld.close_three hmagnitude ?_) hclose
    have htop : (5 : Nat) * (10 : ℚ) ^ 308 ≤ (4 : Nat) * 2 ^ 1024 :=
      mul_ten_pow_le_mul_two_pow (by decide +kernel)
    rw [zpow_neg, inv_le_iff_one_le_mul₀ (two_pow_pos 1024)]
    exact one_le_of_close hpos (pow_pos (by norm_num) 308) (div_nonneg hfirst hpower.le) hclose htop

/-- Two divisions in a row. -/
theorem close_div_div (hn : n < 2 ^ 64) {k : Nat} (hk : k ≤ 308) :
    ∃ q, 0 ≤ q ∧ Close 6 q (n / 10 ^ (308 + k)) ∧
      IsHeld .binary64 (Float.ofNat n / powerOfTen 308 / powerOfTen k).toModel.unpack q := by
  obtain ⟨hmagnitude, hclose⟩ := close_div_top hn
  have hpower := size_powerOfTen_pos hk
  have hfirst : 0 ≤ size (Float.ofNat n / powerOfTen 308) := sizeIn_nonneg hmagnitude
  refine ⟨_, div_nonneg hfirst hpower.le, ?_, isHeld_div hmagnitude (holds_powerOfTen hk)⟩
  rw [pow_add, ← div_div]
  exact hclose.div hfirst (by positivity) hpower (by positivity) (close_powerOfTen hk)

theorem isReading_div_div (hn : n < 2 ^ 64) (h : exponent < -308) (hge : -616 ≤ exponent) :
    ∃ q, IsScaled n exponent q ∧ IsReading q (scale? n exponent) := by
  have hk : (-(exponent + 308)).toNat ≤ 308 := by omega
  obtain ⟨q, hnonneg, hclose, hheld⟩ := close_div_div hn hk
  have hdiv : scale? n exponent =
      some (Float.ofNat n / powerOfTen 308 / powerOfTen (-(exponent + 308)).toNat) := by
    unfold scale?
    simp only [show ¬ 308 < exponent by omega, show ¬ 0 ≤ exponent by omega,
      show ¬ -308 ≤ exponent by omega, hge, if_false, if_true]
  obtain ⟨x, hx, hfinite⟩ := scale?_of_neg hn (show exponent < 0 by omega)
  obtain rfl := Option.some.inj (hx.symm.trans hdiv)
  refine ⟨q, ⟨hnonneg, ?_, fun _ hpower ↦ by omega⟩, ?_⟩
  · have hpower : (-exponent).toNat = 308 + (-(exponent + 308)).toNat := by omega
    rwa [mul_zpow_of_neg (by omega), hpower]
  · rw [hdiv]
    exact ⟨hheld.magnitude hfinite.isFinite, hheld⟩

/-- Any word is zero after two divisions by the largest power of ten, as is the exact quotient. -/
theorem isReading_tiny (hn : n < 2 ^ 64) (h : exponent < -616) :
    ∃ q, IsScaled n exponent q ∧ IsReading q (scale? n exponent) := by
  obtain ⟨q, hnonneg, hclose, hheld⟩ := close_div_div hn le_rfl
  have hdiv : scale? n exponent = some (Float.ofNat n / powerOfTen 308 / powerOfTen 308) := by
    unfold scale?
    simp only [show ¬ 308 < exponent by omega, show ¬ 0 ≤ exponent by omega,
      show ¬ -308 ≤ exponent by omega, show ¬ -616 ≤ exponent by omega, if_false]
  obtain ⟨x, hx, hfinite⟩ := scale?_of_neg hn (show exponent < 0 by omega)
  obtain rfl := Option.some.inj (hx.symm.trans hdiv)
  have hexact : (0 : ℚ) ≤ n * 10 ^ exponent := by positivity
  have hle : (n : ℚ) * 10 ^ exponent ≤ n / 10 ^ (308 + 308) := by
    rw [mul_zpow_of_neg (by omega)]
    exact div_le_div_of_nonneg_left (Nat.cast_nonneg n) (by positivity)
      (pow_le_pow_right₀ (by norm_num) (by omega))
  have hgrown : (n : ℚ) * 10 ^ exponent ≤ n / 10 ^ (308 + 308) * slack ^ 6 :=
    hle.trans (le_mul_of_one_le_right (by positivity) (one_le_pow₀ one_le_slack))
  have htop : (2 : ℚ) ^ 66 * 2 ^ 1074 ≤ 10 ^ (308 + 308) := by
    rw [← pow_add]
    exact two_pow_le_ten_pow (by decide +kernel)
  have hsmall {q : ℚ} (hq : q ≤ n / 10 ^ (308 + 308) * slack ^ 6) :
      2 * q < 2 ^ Format.binary64.minExponent :=
    two_mul_lt_of_close hn (by positivity) (by positivity) hq htop
  refine ⟨_, isScaled_self n exponent, ?_⟩
  rw [hdiv]
  refine ⟨hheld.magnitude hfinite.isFinite, hheld.isNumberIn, ?_⟩
  rw [hheld.valueIn_eq, heldSize_eq_zero (by decide) hnonneg (hsmall hclose.le),
    heldSize_eq_zero (by decide) hexact (hsmall hgrown)]

/-- A significand with a power of ten is read as a size that is six roundings away at most. -/
theorem exists_isReading (hn : n < 2 ^ 64) (exponent : Int) :
    ∃ q, IsScaled n exponent q ∧ IsReading q (scale? n exponent) := by
  rcases lt_or_ge exponent 0 with hneg | hpos
  · rcases lt_or_ge exponent (-616) with htiny | hsmall
    · exact isReading_tiny hn htiny
    · rcases lt_or_ge exponent (-308) with htwice | hrange
      · exact isReading_div_div hn htwice hsmall
      · exact isReading_div hn hneg hrange
  · rcases lt_or_ge 308 exponent with hlarge | hrange
    · exact isReading_large hlarge
    · exact isReading_mul hn hpos hrange

/-! ### Digits that do not fit -/

/-- What has become of digits that were taken for as long as they fit: a larger significand, and the
digits that are left over. Some are left over only if the significand fills a word. -/
structure Absorbed (start : Nat) (ds : List Digit) (significand : Nat) (rest : List Digit) :
    Prop where
  value_eq : start * 10 ^ ds.length + value ds = significand * 10 ^ rest.length + value rest
  le : start * 10 ^ ds.length ≤ significand * 10 ^ rest.length
  length_le : rest.length ≤ ds.length
  full : rest ≠ [] → 2 ^ 60 ≤ significand

theorem absorbed (start : Nat) (ds : List Digit) :
    Absorbed start ds (absorb start ds).1 (absorb start ds).2 := by
  induction ds generalizing start with
  | nil => exact ⟨rfl, le_rfl, le_rfl, fun h ↦ absurd rfl h⟩
  | cons d ds ih =>
    rw [absorb]
    split_ifs with hfits
    · obtain ⟨hvalue, hle, hlength, hfull⟩ := ih (start * 10 + d.val)
      have hsplit := Digit.mul_add_value_cons start d ds
      have hstart : start * 10 ^ (d :: ds).length ≤ (start * 10 + d.val) * 10 ^ ds.length := by
        rw [List.length_cons, Nat.pow_succ', ← Nat.mul_assoc]
        exact Nat.mul_le_mul_right _ (Nat.le_add_right _ _)
      exact ⟨hsplit.trans hvalue, hstart.trans hle, hlength.trans (Nat.le_succ _), hfull⟩
    · refine ⟨rfl, le_rfl, le_rfl, fun _ ↦ ?_⟩
      have hdigit := d.isLt
      have hword : UInt64.size = 2 ^ 64 := rfl
      omega

/-- The digits that are not taken are a small part of a number. -/
theorem Absorbed.mul_le {ds es dropped rest : List Digit} {whole significand : Nat}
    (hds : Absorbed 0 ds whole dropped) (hes : Absorbed whole es significand rest) :
    2 ^ 60 * (significand * 10 ^ (dropped.length + rest.length)) ≤
        2 ^ 60 * value (ds ++ es) + value (ds ++ es) ∧
      2 ^ 60 * value (ds ++ es) ≤
        2 ^ 60 * (significand * 10 ^ (dropped.length + rest.length)) + value (ds ++ es) := by
  have hwhole := hds.value_eq
  have hall := hes.value_eq
  have hle := hes.le
  rw [Nat.zero_mul, Nat.zero_add] at hwhole
  have hpower : significand * 10 ^ (dropped.length + rest.length) =
      significand * 10 ^ rest.length * 10 ^ dropped.length := by ring
  rw [Digit.value_append, hwhole, hpower]
  by_cases hdropped : dropped = []
  · subst hdropped
    have hrest : 2 ^ 60 * value rest ≤ significand * 10 ^ rest.length := by
      by_cases hrest : rest = []
      · subst hrest
        exact Nat.zero_le _
      · exact Nat.mul_le_mul (hes.full hrest) (Digit.value_lt rest).le
    have hnone : value [] = 0 := rfl
    rw [List.length_nil, Nat.pow_zero, Nat.mul_one, Nat.mul_one, hnone, Nat.add_zero, hall]
    omega
  · -- Both numbers begin with the digits that were taken, which fill a word.
    have hfull := hds.full hdropped
    have hbehind := Digit.value_lt es
    have hbefore := Digit.value_lt dropped
    generalize hp : 10 ^ dropped.length = p at hbefore ⊢
    generalize hq : 10 ^ es.length = q at hbehind hall hle ⊢
    generalize significand * 10 ^ rest.length = taken at hall hle ⊢
    have hlow : whole * (p * q) ≤ taken * p := by
      calc whole * (p * q) = whole * q * p := by ring
        _ ≤ taken * p := Nat.mul_le_mul_right _ hle
    have hhigh : taken * p ≤ whole * (p * q) + p * q := by
      calc taken * p ≤ (whole * q + q) * p := Nat.mul_le_mul_right _ (by omega)
        _ = whole * (p * q) + p * q := by ring
    have hlow' : whole * (p * q) ≤ (whole * p + value dropped) * q := by
      calc whole * (p * q) = whole * p * q := by ring
        _ ≤ (whole * p + value dropped) * q := Nat.mul_le_mul_right _ (Nat.le_add_right _ _)
    have hhigh' : (whole * p + value dropped) * q + value es ≤ whole * (p * q) + p * q := by
      calc (whole * p + value dropped) * q + value es
          ≤ (whole * p + value dropped) * q + q := Nat.add_le_add_left hbehind.le _
        _ = (whole * p + (value dropped + 1)) * q := by ring
        _ ≤ (whole * p + p) * q := Nat.mul_le_mul_right _ (by omega)
        _ = whole * (p * q) + p * q := by ring
    have hsmall : 2 ^ 60 * (p * q) ≤ whole * (p * q) := Nat.mul_le_mul_right _ hfull
    omega

/-- The number that a numeral writes, without its sign. -/
def size (n : Numeral) : ℚ := value (n.whole ++ n.fraction) * 10 ^ (n.power - n.fraction.length)

theorem size_nonneg (n : Numeral) : 0 ≤ n.size := by
  unfold size
  positivity

/-- A numeral is read as a significand with a power of ten, one rounding away at most. -/
theorem exists_significand (n : Numeral) :
    ∃ significand exponent, significand < UInt64.size ∧
      Close 1 (significand * 10 ^ exponent) n.size ∧
      n.decimal? = (scale? significand exponent).map n.signed := by
  -- The digits behind the point go on where those before it have come to.
  have hwhole := absorbed 0 n.whole
  have hall := absorbed (absorb 0 n.whole).1 n.fraction
  refine ⟨_, _, absorb_lt (absorb_lt (by decide) _) _, ?_, rfl⟩
  obtain ⟨habove, hbelow⟩ := hwhole.mul_le hall
  have hlength := hall.length_le
  generalize (absorb (absorb 0 n.whole).1 n.fraction).1 = significand at habove hbelow ⊢
  generalize (absorb (absorb 0 n.whole).1 n.fraction).2 = rest at habove hbelow hlength ⊢
  generalize (absorb 0 n.whole).2 = dropped at habove hbelow ⊢
  have hexponent : ((dropped.length - (n.fraction.length - rest.length : Nat) : Int) + n.power) =
      (dropped.length + rest.length : Nat) + (n.power - n.fraction.length) := by omega
  have hsize : (significand : ℚ) *
      10 ^ ((dropped.length - (n.fraction.length - rest.length : Nat) : Int) + n.power) =
        (significand * 10 ^ (dropped.length + rest.length) : Nat) *
          10 ^ (n.power - n.fraction.length) := by
    rw [hexponent, zpow_add₀ (by norm_num), zpow_natCast]
    push_cast
    ring
  show Close 1 ((significand : ℚ) *
    10 ^ ((dropped.length - (n.fraction.length - rest.length : Nat) : Int) + n.power)) n.size
  refine close_one_of_abs_sub_le n.size_nonneg ?_
  have hpower : (0 : ℚ) < 10 ^ (n.power - n.fraction.length) := by positivity
  rw [hsize, size, ← sub_mul, abs_mul, abs_of_pos hpower, mul_div_right_comm]
  refine mul_le_mul_of_nonneg_right ?_ hpower.le
  have habove' : (2 ^ 60 * (significand * 10 ^ (dropped.length + rest.length) : Nat) : ℚ) ≤
      2 ^ 60 * value (n.whole ++ n.fraction) + value (n.whole ++ n.fraction) := mod_cast habove
  have hbelow' : (2 ^ 60 * value (n.whole ++ n.fraction) : ℚ) ≤
      2 ^ 60 * (significand * 10 ^ (dropped.length + rest.length) : Nat) +
        value (n.whole ++ n.fraction) := mod_cast hbelow
  have hnonneg : (0 : ℚ) ≤ value (n.whole ++ n.fraction) := Nat.cast_nonneg _
  rw [abs_le]
  constructor <;> linarith

end Numeral

end LayerCanvas
