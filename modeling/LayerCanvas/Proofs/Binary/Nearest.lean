import LayerCanvas.Proofs.Binary.Gradual

/-!
A word holds the nearest number. Rounding is off by half a step at most, so no other whole number of
steps lies nearer. The numbers with a smaller step lie below a power of two that the exact size
reaches, and that power is a whole number of steps too. An infinity takes the place of the first
power of two that does not fit. Of a size that is not too small, half a step is a small part.
-/

set_option autoImplicit false
set_option relaxedAutoImplicit false

namespace LayerCanvas.Binary

open Float.Model (Format UnpackedFloat totalExponent)
open Float.Model.UnpackedFloat

variable {f g : Format} {x y : UnpackedFloat} {n d m : Nat} {e : Int} {q : ℚ}

/-- Whether a number of a format lies as near to a size as any other one does. -/
structure IsNearest (f : Format) (x : UnpackedFloat) (q : ℚ) : Prop where
  isNumberIn : IsNumberIn f x
  abs_sub_le : ∀ y, IsNumberIn f y → |sizeIn f x - q| ≤ |sizeIn f y - q|

/-! ### Half a step -/

/-- Rounding a fraction to a whole number, without the division. -/
theorem roundedMantissa_ofFraction_bounds (hd : 0 < d) (n : Nat) :
    2 * n ≤ (2 * (ofFraction n d).roundedMantissa + 1) * d ∧
      2 * (ofFraction n d).roundedMantissa * d ≤ 2 * n + d := by
  have hsplit : n = n / d * d + n % d := by
    rw [Nat.mul_comm]
    exact (Nat.div_add_mod n d).symm
  have hless : n % d < d := Nat.mod_lt n hd
  unfold ofFraction accuracyOfFraction
  generalize n / d = whole at hsplit ⊢
  generalize n % d = rest at hsplit hless ⊢
  subst hsplit
  split_ifs with hexact
  · subst hexact
    show 2 * (whole * d + 0) ≤ (2 * whole + 1) * d ∧ 2 * whole * d ≤ 2 * (whole * d + 0) + d
    constructor <;> linarith
  · rcases Nat.lt_trichotomy (2 * rest) d with hlow | hhalf | hhigh
    · rw [Nat.compare_eq_lt.mpr hlow]
      show _ ≤ (2 * whole + 1) * d ∧ 2 * whole * d ≤ _
      constructor <;> linarith
    · rw [Nat.compare_eq_eq.mpr hhalf]
      show _ ≤ (2 * (whole + whole % 2) + 1) * d ∧ 2 * (whole + whole % 2) * d ≤ _
      rcases Nat.mod_two_eq_zero_or_one whole with heven | hodd
      · rw [heven]
        constructor <;> linarith
      · rw [hodd]
        constructor <;> linarith
    · rw [Nat.compare_eq_gt.mpr hhigh]
      show _ ≤ (2 * (whole + 1) + 1) * d ∧ 2 * (whole + 1) * d ≤ _
      constructor <;> linarith

/-- A fraction that is rounded to a whole number is off by a half at most. -/
theorem abs_roundedMantissa_sub_le (hd : 0 < d) (n : Nat) :
    |((ofFraction n d).roundedMantissa : ℚ) - n / d| ≤ 1 / 2 := by
  obtain ⟨habove, hbelow⟩ := roundedMantissa_ofFraction_bounds hd n
  have hd' : (0 : ℚ) < d := mod_cast hd
  have habove' : (n : ℚ) / d ≤ (ofFraction n d).roundedMantissa + 1 / 2 := by
    rw [div_le_iff₀ hd']
    have hcast : (2 * n : ℚ) ≤ (2 * (ofFraction n d).roundedMantissa + 1) * d := mod_cast habove
    linarith
  have hbelow' : ((ofFraction n d).roundedMantissa : ℚ) - 1 / 2 ≤ n / d := by
    rw [le_div_iff₀ hd']
    have hcast : (2 * (ofFraction n d).roundedMantissa * d : ℚ) ≤ 2 * n + d := mod_cast hbelow
    linarith
  rw [abs_le]
  constructor <;> linarith

/-- The exponent that a fraction with an exponent is rounded to. -/
def placeIn (f : Format) (n d : Nat) (e : Int) : Int :=
  f.targetExponent (totalExponent (n / d) e)

/-- A fraction that is rounded is a whole number of steps, and off by half a step at most. -/
theorem exists_steps (hd : 0 < d) (hright : e ≤ placeIn f n d e) :
    ∃ r : Nat, (roundedFraction f n d e : ℚ) * 2 ^ f.minExponent = r * 2 ^ placeIn f n d e ∧
      |(r : ℚ) * 2 ^ placeIn f n d e - quantity n d e| ≤ 2 ^ placeIn f n d e / 2 := by
  set place := placeIn f n d e with hplace
  have hleast : f.minExponent ≤ place := le_max_right _ _
  set shift := (place - e).toNat with hshift
  refine ⟨(ofFraction n (d * 2 ^ shift)).roundedMantissa, ?_, ?_⟩
  · have hrounded : roundedFraction f n d e =
        (ofFraction n d >>> shift).roundedMantissa * 2 ^ (place - f.minExponent).toNat := rfl
    have hpower : (2 : ℚ) ^ (place - f.minExponent).toNat * 2 ^ f.minExponent = 2 ^ place := by
      rw [← zpow_natCast, ← two_pow_add]
      congr 1
      omega
    rw [hrounded, shift_ofFraction hd, Nat.cast_mul, Nat.cast_pow, Nat.cast_ofNat, mul_assoc,
      hpower]
  · have hstep := two_pow_pos place
    have hnear := abs_roundedMantissa_sub_le (show 0 < d * 2 ^ shift by positivity) n
    rw [quantity_shift n d hright, quantity, ← sub_mul, abs_mul, abs_of_pos hstep]
    calc |((ofFraction n (d * 2 ^ shift)).roundedMantissa : ℚ) - n / (d * 2 ^ shift : Nat)| *
          2 ^ place ≤ 1 / 2 * 2 ^ place := mul_le_mul_of_nonneg_right hnear hstep.le
      _ = 2 ^ place / 2 := by ring

/-- A step larger than the least one is a small part of the fraction. -/
theorem two_pow_mul_le_quantity (hd : 0 < d) (hright : e ≤ placeIn f n d e)
    (hlarge : f.minExponent < placeIn f n d e) :
    2 ^ f.mantissaBitsWithoutImplicit * 2 ^ placeIn f n d e ≤ quantity n d e := by
  obtain ⟨hpos, -⟩ := le_roundedTo (f := f) .exact hright hlarge
  have htarget : placeIn f n d e = max (totalExponent (n / d) e - f.mantissaBits) f.minExponent :=
    targetExponent_eq f _
  have hbits := mantissaBits_eq f
  have hexponent : (f.mantissaBitsWithoutImplicit : Int) + placeIn f n d e =
      totalExponent (n / d) e - 1 := by omega
  rw [← zpow_natCast, ← two_pow_add, hexponent]
  exact two_pow_le_quantity hd hpos e

/-! ### The nearest number -/

/-- A number is not positive, or it has the size of a significand with an exponent. -/
theorem sizeIn_cases (hf : 2 ≤ f.exponentBits) (hy : IsNumberIn f y) :
    sizeIn f y ≤ 0 ∨ ∃ m e, Fits f m e ∧ sizeIn f y = quantity m 1 e := by
  have hnegative (u : Nat) : ((Sign.negative.apply u : Int) : ℚ) * 2 ^ f.minExponent ≤ 0 := by
    rw [Sign.apply, Int.cast_neg, Int.cast_natCast, neg_mul, neg_nonpos]
    exact mul_nonneg (Nat.cast_nonneg u) (two_pow_pos _).le
  cases hy with
  | infinity s =>
    cases s with
    | negative => exact Or.inl (hnegative _)
    | positive =>
      have hfits := fits_limitIn hf
      refine Or.inr ⟨_, _, hfits, ?_⟩
      rw [quantity_one _ hfits.least, sizeIn, valueIn, Sign.apply, Int.cast_natCast, limitIn]
  | zero s => exact Or.inl (sizeIn_zero f s).le
  | @finite s m e h he =>
    cases s with
    | negative => exact Or.inl (hnegative _)
    | positive => exact Or.inr ⟨m, e, h, sizeIn_finite h⟩

theorem sizeIn_infinity (f : Format) :
    sizeIn f (.infinity .positive) = limitIn f * 2 ^ f.minExponent := by
  rw [sizeIn, valueIn, Sign.apply, Int.cast_natCast]

/-- The size in whose place an infinity stands. -/
theorem limitIn_mul (hf : 2 ≤ f.exponentBits) :
    (limitIn f : ℚ) * 2 ^ f.minExponent = 2 ^ (f.mantissaBitsWithoutImplicit + endExponent f) := by
  rw [limitIn, ← quantity_one _ (fits_limitIn hf).least, quantity, Nat.cast_one, div_one,
    two_pow_add, zpow_natCast, Nat.cast_pow, Nat.cast_ofNat]

theorem sizeIn_le_limitIn (hf : 2 ≤ f.exponentBits) (hy : IsNumberIn f y) :
    sizeIn f y ≤ limitIn f * 2 ^ f.minExponent := by
  have hvalue : valueIn f y ≤ limitIn f := by
    rw [← heldIntIn_valueIn hf hy, heldIntIn]
    have hle : heldIn f (valueIn f y).natAbs ≤ limitIn f := min_le_right _ _
    split_ifs <;> omega
  exact mul_le_mul_of_nonneg_right (mod_cast hvalue) (two_pow_pos _).le

/-- Of the whole numbers of steps, none lies nearer than one that is off by half a step at most. -/
theorem abs_steps_sub_le {step : ℚ} {r : Nat} (hstep : 0 < step)
    (hnear : |(r : ℚ) * step - q| ≤ step / 2) (z : Int) :
    |(r : ℚ) * step - q| ≤ |(z : ℚ) * step - q| := by
  by_cases hz : z = r
  · rw [hz, Int.cast_natCast]
  · have hone : (1 : ℚ) ≤ |(z : ℚ) - r| := by
      have hne : (1 : Int) ≤ |z - r| := Int.one_le_abs (sub_ne_zero.mpr hz)
      exact_mod_cast hne
    have hapart : step ≤ |(z : ℚ) * step - r * step| := by
      rw [← sub_mul, abs_mul, abs_of_pos hstep]
      exact le_mul_of_one_le_left hstep.le hone
    have htriangle := abs_sub_le ((z : ℚ) * step) q (r * step)
    rw [abs_sub_comm q] at htriangle
    linarith

/-- What lies below a whole number of steps that the size reaches is farther away than that. -/
theorem abs_steps_sub_le_of_le {step a : ℚ} {r : Nat} (hstep : 0 < step)
    (hnear : |(r : ℚ) * step - q| ≤ step / 2) {z : Int} (hz : (z : ℚ) * step ≤ q)
    (hle : a ≤ z * step) : |(r : ℚ) * step - q| ≤ |a - q| := by
  have hfar := abs_steps_sub_le hstep hnear z
  rw [abs_of_nonpos (sub_nonpos.mpr hz)] at hfar
  rw [abs_of_nonpos (sub_nonpos.mpr (hle.trans hz))]
  linarith

/-- A significand with a smaller exponent than a step lies below the power of two from which on
numbers have that step. -/
theorem quantity_le_of_lt {place : Int} (h : Fits f m e) (hless : e < place) :
    quantity m 1 e ≤ 2 ^ f.mantissaBitsWithoutImplicit * 2 ^ place := by
  have hshort : (m : ℚ) ≤ 2 ^ f.mantissaBits := mod_cast h.short.le
  have hpower : (2 : ℚ) ^ f.mantissaBits * 2 ^ e =
      2 ^ f.mantissaBitsWithoutImplicit * 2 ^ (e + 1) := by
    rw [mantissaBits_eq, pow_succ, two_pow_add, zpow_one]
    ring
  calc quantity m 1 e = m * 2 ^ e := by rw [quantity, Nat.cast_one, div_one]
    _ ≤ 2 ^ f.mantissaBits * 2 ^ e := mul_le_mul_of_nonneg_right hshort (two_pow_pos e).le
    _ = 2 ^ f.mantissaBitsWithoutImplicit * 2 ^ (e + 1) := hpower
    _ ≤ 2 ^ f.mantissaBitsWithoutImplicit * 2 ^ place := by
      refine mul_le_mul_of_nonneg_left ?_ (by positivity)
      exact zpow_le_zpow_right₀ (by norm_num) (by omega)

/-- A significand with an exponent that is not smaller than a step is a whole number of steps. -/
theorem quantity_eq_steps {place : Int} (m : Nat) (hmore : place ≤ e) :
    quantity m 1 e = ((m * 2 ^ (e - place).toNat : Int) : ℚ) * 2 ^ place := by
  have hexponent : e = (e - place).toNat + place := by omega
  rw [quantity, Nat.cast_one, div_one]
  conv_lhs => rw [hexponent, two_pow_add, zpow_natCast]
  push_cast
  ring

/-- No number of a format lies nearer to a fraction than what it is rounded to. -/
theorem abs_roundedFraction_sub_le (hf : 2 ≤ f.exponentBits) (hd : 0 < d)
    (hright : e ≤ placeIn f n d e) (hy : IsNumberIn f y) :
    |(roundedFraction f n d e : ℚ) * 2 ^ f.minExponent - quantity n d e| ≤
      |sizeIn f y - quantity n d e| := by
  obtain ⟨r, hsteps, hnear⟩ := exists_steps hd hright
  have hstep := two_pow_pos (placeIn f n d e)
  rw [hsteps]
  rcases sizeIn_cases hf hy with hneg | ⟨m, e', hfits, hy'⟩
  · refine abs_steps_sub_le_of_le hstep hnear (z := 0) ?_ ?_
    · rw [Int.cast_zero, zero_mul]
      exact quantity_nonneg n d e
    · rwa [Int.cast_zero, zero_mul]
  · rw [hy']
    rcases lt_or_ge e' (placeIn f n d e) with hless | hmore
    · have hreach := two_pow_mul_le_quantity hd hright (hfits.least.trans_lt hless)
      exact abs_steps_sub_le_of_le hstep hnear (z := 2 ^ f.mantissaBitsWithoutImplicit)
        (mod_cast hreach) (mod_cast quantity_le_of_lt hfits hless)
    · rw [quantity_eq_steps m hmore]
      exact abs_steps_sub_le hstep hnear _

theorem abs_heldFraction_sub_le (hf : 2 ≤ f.exponentBits) (hd : 0 < d)
    (hright : e ≤ placeIn f n d e) (hy : IsNumberIn f y) :
    |(heldFraction f n d e : ℚ) * 2 ^ f.minExponent - quantity n d e| ≤
      |sizeIn f y - quantity n d e| := by
  rcases Nat.lt_or_ge (limitIn f) (roundedFraction f n d e) with hlarge | hsmall
  · -- The infinity does not lie nearer than what is larger than it, so the fraction reaches it.
    have hnear := abs_roundedFraction_sub_le hf hd hright (.infinity .positive)
    have hmore : (limitIn f : ℚ) * 2 ^ f.minExponent <
        roundedFraction f n d e * 2 ^ f.minExponent :=
      mul_lt_mul_of_pos_right (mod_cast hlarge) (two_pow_pos _)
    have hreach : (limitIn f : ℚ) * 2 ^ f.minExponent ≤ quantity n d e := by
      by_contra hless
      rw [sizeIn_infinity, abs_of_pos (by linarith), abs_of_pos (by linarith)] at hnear
      linarith
    have hle := sizeIn_le_limitIn hf hy
    rw [heldFraction, Nat.min_eq_right hlarge.le, abs_of_nonpos (by linarith),
      abs_of_nonpos (by linarith)]
    linarith
  · rw [heldFraction, Nat.min_eq_left hsmall]
    exact abs_roundedFraction_sub_le hf hd hright hy

/-- Whether a number is the one that a word holds in the place of a size. -/
structure IsHeld (f : Format) (x : UnpackedFloat) (q : ℚ) : Prop where
  isNumberIn : IsNumberIn f x
  valueIn_eq : valueIn f x = heldSize f q

theorem isHeld_of_packsAs (hf : 2 ≤ f.exponentBits) (h : PacksAs f x q) :
    IsHeld f (UnpackedFloat.unpack f (UnpackedFloat.pack f x)) q where
  isNumberIn := isNumberIn_unpack hf (unpack_pack_ne_notANumber h.ne_notANumber)
  valueIn_eq := h.packedValue_eq

theorem IsHeld.sizeIn_eq (h : IsHeld f x q) : sizeIn f x = heldSize f q * 2 ^ f.minExponent := by
  rw [sizeIn, h.valueIn_eq, Int.cast_natCast]

/-- What is held is finite, or it is the positive infinity. -/
theorem IsHeld.magnitude_or_infinity (h : IsHeld f x q) :
    Magnitude f x ∨ x = .infinity .positive := by
  refine magnitude_cases h.isNumberIn ?_
  rw [h.valueIn_eq]
  exact Int.natCast_nonneg _

theorem IsHeld.heldSize_lt (hf : 2 ≤ f.exponentBits) (h : IsHeld f x q) (hx : Magnitude f x) :
    heldSize f q < limitIn f := by
  have hlimit := valueIn_lt_limitIn hf hx
  rw [h.valueIn_eq] at hlimit
  exact_mod_cast hlimit

/-- What a word holds in the place of a size is the number nearest to it. -/
theorem IsHeld.isNearest (hf : 2 ≤ f.exponentBits) (h : IsHeld f x q) (hq : 0 ≤ q) :
    IsNearest f x q where
  isNumberIn := h.isNumberIn
  abs_sub_le y hy := by
    have hleast (t : Int) : f.minExponent ≤ f.targetExponent t := le_max_right _ _
    have hnear := abs_heldFraction_sub_le hf (Rat.den_pos (q / 2 ^ f.minExponent))
      (n := (q / 2 ^ f.minExponent).num.natAbs) (hleast _) hy
    rw [quantity_num_den hq] at hnear
    rw [h.sizeIn_eq]
    exact hnear

/-- Only what is at least half as large as the first power of two that does not fit is held as an
infinity. -/
theorem IsHeld.magnitude_of_lt (hf : 2 ≤ f.exponentBits) (h : IsHeld f x q) (hq : 0 ≤ q)
    (hlt : 2 * q < limitIn f * 2 ^ f.minExponent) : Magnitude f x := by
  refine h.magnitude_or_infinity.resolve_right fun hinfinite ↦ ?_
  have hnear := (h.isNearest hf hq).abs_sub_le _ (.zero .positive)
  rw [hinfinite, sizeIn_infinity, sizeIn_zero, zero_sub, abs_neg, abs_of_nonneg hq,
    abs_of_pos (by linarith)] at hnear
  linarith

theorem sizeIn_neg (f : Format) (x : UnpackedFloat) : sizeIn f x.neg = -sizeIn f x := by
  rw [sizeIn, sizeIn, valueIn_neg, Int.cast_neg, neg_mul]

/-- The number nearest to an opposite is the opposite of the nearest number. -/
theorem IsNearest.neg (h : IsNearest f x q) : IsNearest f x.neg (-q) where
  isNumberIn := h.isNumberIn.neg
  abs_sub_le y hy := by
    calc |sizeIn f x.neg - -q| = |sizeIn f x - q| := by rw [sizeIn_neg, ← neg_sub', abs_neg]
      _ ≤ |sizeIn f y.neg - q| := h.abs_sub_le y.neg hy.neg
      _ = |sizeIn f y - -q| := by rw [sizeIn_neg, ← abs_neg, neg_sub, sub_neg_eq_add, add_comm,
        sub_neg_eq_add]

/-- A number lies nearest to its own size. -/
theorem isNearest_sizeIn (h : IsNumberIn f x) : IsNearest f x (sizeIn f x) where
  isNumberIn := h
  abs_sub_le y _ := by
    rw [sub_self, abs_zero]
    exact abs_nonneg _

/-- A number is not the nearest one when another one lies nearer. -/
theorem Fits.not_isNearest {k : Int} (h : Fits f m e) (h' : Fits f n k) (hk : k < endExponent f)
    (hcloser : |quantity n 1 k - q| < |quantity m 1 e - q|) :
    ¬ IsNearest f (.finite .positive m e h.pos) q := by
  intro hnearest
  have hnear := hnearest.abs_sub_le _ (.finite .positive h' hk)
  rw [sizeIn_finite h, sizeIn_finite h'] at hnear
  linarith

/-! ### Sizes at the ends of the range -/

/-- What a word holds in the place of a size is off by half a step at most: half of the least one,
or half of the last bit of the size. -/
theorem abs_heldSize_sub_le (hq : 0 ≤ q) (h : heldSize f q < limitIn f) :
    |(heldSize f q : ℚ) * 2 ^ f.minExponent - q| ≤
      max (2 ^ f.minExponent) (q / 2 ^ f.mantissaBitsWithoutImplicit) / 2 := by
  have hden := Rat.den_pos (q / 2 ^ f.minExponent)
  have hright : f.minExponent ≤ placeIn f (q / 2 ^ f.minExponent).num.natAbs
      (q / 2 ^ f.minExponent).den f.minExponent := le_max_right _ _
  have hheld : heldSize f q = roundedFraction f (q / 2 ^ f.minExponent).num.natAbs
      (q / 2 ^ f.minExponent).den f.minExponent := by
    rw [heldSize, heldFraction] at h ⊢
    omega
  obtain ⟨r, hsteps, hnear⟩ := exists_steps hden hright
  rw [quantity_num_den hq] at hnear
  rw [hheld, hsteps]
  refine hnear.trans (div_le_div_of_nonneg_right ?_ zero_le_two)
  rcases hright.eq_or_lt with hleast | hlarge
  · rw [← hleast]
    exact le_max_left _ _
  · have hreach := two_pow_mul_le_quantity hden hright hlarge
    rw [quantity_num_den hq] at hreach
    refine le_max_of_le_right ((le_div_iff₀ (by positivity)).mpr ?_)
    rwa [mul_comm]

/-- A whole number of units is held as such. -/
theorem heldSize_units (f : Format) (n : Nat) :
    heldSize f (n * 2 ^ f.minExponent) = heldIn f n := by
  have hquantity : quantity n 1 f.minExponent = n * 2 ^ f.minExponent := by
    rw [quantity, Nat.cast_one, div_one]
  have hshift : (f.targetExponent (totalExponent n f.minExponent) - f.minExponent).toNat =
      n.log2 - f.mantissaBitsWithoutImplicit := by
    have hbits := mantissaBits_eq f
    rw [targetExponent_eq, totalExponent]
    omega
  have hrounded : roundedFraction f n 1 f.minExponent = roundedIn f n := by
    have hexact : accuracyOfFraction (n % 1) 1 = .exact := by rw [Nat.mod_one]; rfl
    rw [roundedFraction, hexact, roundedTo, Nat.div_one, shiftTo, hshift, roundedIn, cutBy]
  rw [← hquantity, ← heldFraction_eq Nat.one_pos (le_max_right _ _), heldFraction, hrounded, heldIn]

/-- A size below half of the least positive number is held as zero. -/
theorem heldSize_eq_zero (hf : 2 ≤ f.exponentBits) (hq : 0 ≤ q) (h : 2 * q < 2 ^ f.minExponent) :
    heldSize f q = 0 := by
  have hleast (t : Int) : f.minExponent ≤ f.targetExponent t := le_max_right _ _
  have hnear := abs_heldFraction_sub_le hf (Rat.den_pos (q / 2 ^ f.minExponent))
    (n := (q / 2 ^ f.minExponent).num.natAbs) (hleast _) (.zero .positive)
  rw [quantity_num_den hq, sizeIn_zero, zero_sub, abs_neg, abs_of_nonneg hq] at hnear
  have hstep := two_pow_pos f.minExponent
  have hsmall : (heldSize f q : ℚ) * 2 ^ f.minExponent < 1 * 2 ^ f.minExponent := by
    have hle := (le_abs_self _).trans hnear
    rw [heldSize]
    linarith
  have hone : (heldSize f q : ℚ) < 1 := lt_of_mul_lt_mul_right hsmall hstep.le
  exact Nat.lt_one_iff.mp (mod_cast hone)

/-- A size that is too large is held as an infinity. -/
theorem heldSize_eq_limitIn (hf : 2 ≤ f.exponentBits) (h : limitIn f * 2 ^ f.minExponent ≤ q) :
    heldSize f q = limitIn f := by
  have hlimit : heldIn f (limitIn f) = limitIn f := by
    have hheld := heldIntIn_valueIn hf (.infinity .positive)
    rw [valueIn, heldIntIn_apply] at hheld
    exact Int.ofNat_inj.mp hheld
  refine Nat.le_antisymm (heldSize_le_limitIn f q) ?_
  rw [← hlimit, ← heldSize_units]
  exact heldSize_mono (mul_nonneg (Nat.cast_nonneg _) (two_pow_pos _).le) h

end LayerCanvas.Binary
