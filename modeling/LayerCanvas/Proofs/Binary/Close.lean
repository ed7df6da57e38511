import LayerCanvas.Proofs.Binary.Nearest

/-!
Sizes that are a few roundings apart. A rounding changes a size by a factor that lies next to one,
so the roundings of a product, of a quotient or of one size after another are counted. Near the end
of the range a step is larger than elsewhere in proportion, and a rounding counts for three.
-/

set_option autoImplicit false
set_option relaxedAutoImplicit false

namespace LayerCanvas.Binary

open Float.Model (Format UnpackedFloat)

/-- A factor that a rounding to double precision stays below. -/
def slack : ℚ := 1 + 1 / 2 ^ 52

/-- Whether two sizes are at most so many roundings apart. -/
structure Close (j : Nat) (a b : ℚ) : Prop where
  le : a ≤ b * slack ^ j
  ge : b ≤ a * slack ^ j

variable {a a' b b' c q : ℚ} {j k : Nat} {x : UnpackedFloat}

theorem one_le_slack : 1 ≤ slack := by norm_num [slack]

theorem slack_pow_pos (j : Nat) : 0 < slack ^ j := pow_pos (by norm_num [slack]) j

namespace Close

theorem refl (a : ℚ) : Close 0 a a := by constructor <;> rw [pow_zero, mul_one]

theorem symm (h : Close j a b) : Close j b a := ⟨h.ge, h.le⟩

theorem mono (ha : 0 ≤ a) (hb : 0 ≤ b) (h : Close j a b) (hle : j ≤ k) : Close k a b := by
  have hpow : slack ^ j ≤ slack ^ k := pow_le_pow_right₀ one_le_slack hle
  exact ⟨h.le.trans (mul_le_mul_of_nonneg_left hpow hb),
    h.ge.trans (mul_le_mul_of_nonneg_left hpow ha)⟩

theorem trans (h : Close j a b) (h' : Close k b c) : Close (j + k) a c where
  le := calc a ≤ b * slack ^ j := h.le
    _ ≤ c * slack ^ k * slack ^ j := mul_le_mul_of_nonneg_right h'.le (slack_pow_pos j).le
    _ = c * slack ^ (j + k) := by ring
  ge := calc c ≤ b * slack ^ k := h'.ge
    _ ≤ a * slack ^ j * slack ^ k := mul_le_mul_of_nonneg_right h.ge (slack_pow_pos k).le
    _ = a * slack ^ (j + k) := by ring

theorem mul (ha : 0 ≤ a) (ha' : 0 ≤ a') (hb : 0 ≤ b) (hb' : 0 ≤ b') (h : Close j a b)
    (h' : Close k a' b') : Close (j + k) (a * a') (b * b') where
  le := calc a * a' ≤ b * slack ^ j * (b' * slack ^ k) :=
        mul_le_mul h.le h'.le ha' (mul_nonneg hb (slack_pow_pos j).le)
    _ = b * b' * slack ^ (j + k) := by ring
  ge := calc b * b' ≤ a * slack ^ j * (a' * slack ^ k) :=
        mul_le_mul h.ge h'.ge hb' (mul_nonneg ha (slack_pow_pos j).le)
    _ = a * a' * slack ^ (j + k) := by ring

theorem inv (ha : 0 < a) (hb : 0 < b) (h : Close j a b) : Close j a⁻¹ b⁻¹ := by
  have hstep {s t : ℚ} (hs : 0 < s) (ht : 0 < t) (hle : s ≤ t * slack ^ j) :
      t⁻¹ ≤ s⁻¹ * slack ^ j := by
    rw [inv_le_iff_one_le_mul₀ ht]
    calc (1 : ℚ) = s⁻¹ * s := (inv_mul_cancel₀ hs.ne').symm
      _ ≤ s⁻¹ * (t * slack ^ j) := mul_le_mul_of_nonneg_left hle (inv_pos.mpr hs).le
      _ = s⁻¹ * slack ^ j * t := by ring
  exact ⟨hstep hb ha h.ge, hstep ha hb h.le⟩

theorem div (ha : 0 ≤ a) (hb : 0 ≤ b) (ha' : 0 < a') (hb' : 0 < b') (h : Close j a b)
    (h' : Close k a' b') : Close (j + k) (a / a') (b / b') := by
  rw [div_eq_mul_inv, div_eq_mul_inv]
  exact h.mul ha (inv_pos.mpr ha').le hb (inv_pos.mpr hb').le (h'.inv ha' hb')

theorem pos (ha : 0 < a) (h : Close j a b) : 0 < b :=
  pos_of_mul_pos_left (ha.trans_le h.le) (slack_pow_pos j).le

/-- Sizes that are seven roundings apart differ by a small part. -/
theorem abs_sub_le (hb : 0 ≤ b) (h : Close 7 a b) : |a - b| ≤ b / 2 ^ 49 := by
  have hpow : slack ^ 7 ≤ 1 + 1 / 2 ^ 49 := by norm_num [slack]
  have hle : a ≤ b * (1 + 1 / 2 ^ 49) := h.le.trans (mul_le_mul_of_nonneg_left hpow hb)
  have ha : 0 ≤ a := nonneg_of_mul_nonneg_left (hb.trans h.ge) (slack_pow_pos 7)
  have hge : b ≤ a * (1 + 1 / 2 ^ 49) := h.ge.trans (mul_le_mul_of_nonneg_left hpow ha)
  rw [abs_le]
  constructor <;> linarith

end Close

/-! ### Roundings -/

theorem close_one_of_abs_sub_le (hb : 0 ≤ b) (h : |a - b| ≤ b / 2 ^ 53) : Close 1 a b := by
  obtain ⟨hge, hle⟩ := abs_le.mp h
  constructor
  · rw [pow_one, slack]
    linarith
  · rw [pow_one, slack]
    linarith

theorem close_three_of_abs_sub_le (hb : 0 ≤ b) (h : |a - b| ≤ b / 2 ^ 51) : Close 3 a b := by
  obtain ⟨hge, hle⟩ := abs_le.mp h
  have hpow : 1 + 3 / 2 ^ 52 ≤ slack ^ 3 := by norm_num [slack]
  have ha : 0 ≤ a := by linarith
  constructor
  · refine le_trans ?_ (mul_le_mul_of_nonneg_left hpow hb)
    linarith
  · refine le_trans ?_ (mul_le_mul_of_nonneg_left hpow ha)
    linarith

/-- Rounding to double precision changes a size by half a step at most. -/
theorem IsHeld.abs_sub_le (h : IsHeld .binary64 x q) (hx : Magnitude .binary64 x) (hq : 0 ≤ q) :
    |sizeIn .binary64 x - q| ≤ max (2 ^ (-1074 : Int)) (q / 2 ^ 52) / 2 := by
  rw [h.sizeIn_eq]
  exact abs_heldSize_sub_le hq (h.heldSize_lt (by decide) hx)

/-- A size that is not too small is changed by one rounding. -/
theorem IsHeld.close_one (h : IsHeld .binary64 x q) (hx : Magnitude .binary64 x)
    (hq : 2 ^ (-1022 : Int) ≤ q) : Close 1 (sizeIn .binary64 x) q := by
  have hpos : 0 ≤ q := (two_pow_pos _).le.trans hq
  refine close_one_of_abs_sub_le hpos ((h.abs_sub_le hx hpos).trans ?_)
  have hstep : (2 : ℚ) ^ (-1074 : Int) ≤ q / 2 ^ 52 := by
    rw [le_div_iff₀ (by norm_num), ← zpow_natCast, ← two_pow_add]
    exact hq
  rw [max_eq_right hstep]
  linarith

/-- A size at the end of the range is changed by no more than three roundings elsewhere. -/
theorem IsHeld.close_three (h : IsHeld .binary64 x q) (hx : Magnitude .binary64 x)
    (hq : 2 ^ (-1024 : Int) ≤ q) : Close 3 (sizeIn .binary64 x) q := by
  have hpos : 0 ≤ q := (two_pow_pos _).le.trans hq
  refine close_three_of_abs_sub_le hpos ((h.abs_sub_le hx hpos).trans ?_)
  have hstep : (2 : ℚ) ^ (-1074 : Int) ≤ q / 2 ^ 50 := by
    rw [le_div_iff₀ (by norm_num), ← zpow_natCast, ← two_pow_add]
    exact hq
  rcases max_cases ((2 : ℚ) ^ (-1074 : Int)) (q / 2 ^ 52) with ⟨hmax, -⟩ | ⟨hmax, -⟩ <;>
    rw [hmax] <;> linarith

/-! ### Finite and positive numbers -/

theorem sizeIn_lt_iff {f : Format} {y : UnpackedFloat} :
    sizeIn f x < sizeIn f y ↔ valueIn f x < valueIn f y := by
  rw [← not_le, sizeIn_le_iff, not_le]

/-- A double is finite and positive when what it stands for is. -/
theorem isPositive_iff_size {x : Float} :
    Scalar.isPositive x = true ↔
      x.toModel.unpack.isFinite = true ∧ 0 < sizeIn .binary64 x.toModel.unpack := by
  rw [Scalar.isPositive, Bool.and_eq_true_iff, decide_eq_true_iff, ← isFinite_eq]
  refine and_congr_right fun hfinite ↦ ?_
  have hzero : IsNumber (Scalar.ofNat 0 : Float).toModel.unpack := .zero .positive
  rw [← sizeIn_zero .binary64 .positive, sizeIn_lt_iff, valueIn_binary64, valueIn_binary64]
  exact lt_iff_value hzero (isNumber_of_isFinite hfinite)

theorem lt_single_iff_size {a b : Float32} (ha : IsNumberIn .binary32 a.toModel.unpack)
    (hb : IsNumberIn .binary32 b.toModel.unpack) :
    a < b ↔ sizeIn .binary32 a.toModel.unpack < sizeIn .binary32 b.toModel.unpack := by
  rw [sizeIn_lt_iff]
  exact lt_single_iff_value ha hb

theorem isPositive_single_iff_size {x : Float32} :
    Scalar.isPositive x = true ↔
      x.toModel.unpack.isFinite = true ∧ 0 < sizeIn .binary32 x.toModel.unpack := by
  rw [Scalar.isPositive, Bool.and_eq_true_iff, decide_eq_true_iff, ← isFinite_single_eq]
  refine and_congr_right fun hfinite ↦ ?_
  have hzero : IsNumberIn .binary32 (Scalar.ofNat 0 : Float32).toModel.unpack := .zero .positive
  rw [← sizeIn_zero .binary32 .positive]
  exact lt_single_iff_size hzero (isNumberIn_of_isFinite hfinite)

/-- A finite and positive number in single precision is so in double precision. -/
theorem isPositive_widen {x : Float32} (h : Scalar.isPositive x = true) :
    Scalar.isPositive (Precision.widen x : Float) = true := by
  obtain ⟨m, e, hm, hx⟩ := exists_of_isPositive_single h
  obtain ⟨hfits, he⟩ := fits_of_unpack_single hx
  have hsize : sizeIn .binary32 x.toModel.unpack = quantity m 1 e := by rw [hx, sizeIn_finite hfits]
  have hfinite : Magnitude .binary32 x.toModel.unpack := by
    have hend : endExponent .binary32 = 105 := rfl
    rw [hx]
    exact .finite hfits (by omega)
  have hheld : IsHeld .binary64 (Precision.widen x : Float).toModel.unpack (quantity m 1 e) := by
    rw [← hsize]
    exact isHeld_of_packsAs (by decide) (packsAs_nearest (by decide) hfinite)
  have hone : (1 : ℚ) ≤ m := mod_cast hm
  have hleast : -149 ≤ e := hfits.least
  have hlow : 2 ^ (-1022 : Int) ≤ quantity m 1 e := by
    rw [quantity, Nat.cast_one, div_one]
    calc (2 : ℚ) ^ (-1022 : Int) ≤ 1 * 2 ^ e := by
          rw [one_mul]
          exact zpow_le_zpow_right₀ (by norm_num) (by omega)
      _ ≤ m * 2 ^ e := mul_le_mul_of_nonneg_right hone (two_pow_pos e).le
  have hmagnitude : Magnitude .binary64 (Precision.widen x : Float).toModel.unpack := by
    refine hheld.magnitude_of_lt (by decide) (quantity_nonneg m 1 e) ?_
    have hshort : (m : ℚ) < 2 ^ 24 := mod_cast hfits.short
    rw [limitIn_mul (by decide), quantity, Nat.cast_one, div_one]
    calc 2 * (m * (2 : ℚ) ^ e) = m * 2 ^ (1 + e) := by rw [two_pow_add, zpow_one]; ring
      _ < 2 ^ 24 * 2 ^ (1 + e) := mul_lt_mul_of_pos_right hshort (two_pow_pos _)
      _ = 2 ^ (24 + (1 + e)) := by rw [two_pow_add 24, zpow_ofNat]
      _ ≤ 2 ^ ((52 : Nat) + (972 : Int)) := zpow_le_zpow_right₀ (by norm_num) (by omega)
  have hpositive : 0 < sizeIn .binary64 (Precision.widen x : Float).toModel.unpack :=
    (hheld.close_one hmagnitude hlow).symm.pos ((two_pow_pos _).trans_le hlow)
  exact isPositive_iff_size.mpr ⟨hmagnitude.isFinite, hpositive⟩

end LayerCanvas.Binary
