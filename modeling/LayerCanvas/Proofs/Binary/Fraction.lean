import LayerCanvas.Proofs.Binary.Sum

/-!
Rounding keeps the order of fractions. A product or a quotient is a fraction with an exponent, which
need not be a whole number of units. It is cut to a significand with a bit for the half and a bit
for the rest, and what comes out is a whole number of units again. Of two fractions that are rounded
to one exponent the larger one has no smaller significand. If the exponents differ, a power of two
lies between the two, and rounding does not cross it.
-/

set_option autoImplicit false
set_option relaxedAutoImplicit false

namespace LayerCanvas.Binary

open Float.Model (Format UnpackedFloat totalExponent)
open Float.Model.UnpackedFloat

variable {n n' d d' : Nat}

/-! ### Fractions as significands -/

/-- The whole part of a fraction, with the bit for the half and the bit for the rest. -/
def ofFraction (n d : Nat) : ExtendedMantissa :=
  .ofMantissaAndAccuracy (n / d) (accuracyOfFraction (n % d) d)

/-- The bits of a fraction as one number: below the whole part they tell nothing, less than the
half, the half, and more than the half apart. -/
theorem weight_ofFraction (n d : Nat) :
    weight (ofFraction n d) = 4 * (n / d) + (if n % d = 0 then 0
      else if 2 * (n % d) < d then 1 else if 2 * (n % d) = d then 2 else 3) := by
  unfold weight ofFraction accuracyOfFraction
  split_ifs with hexact hless hhalf
  · simp [ExtendedMantissa.ofMantissaAndAccuracy]
  · simp [Nat.compare_eq_lt.mpr hless, ExtendedMantissa.ofMantissaAndAccuracy]
  · simp [Nat.compare_eq_eq.mpr hhalf, ExtendedMantissa.ofMantissaAndAccuracy]
  · simp [Nat.compare_eq_gt.mpr (show d < 2 * (n % d) by omega),
      ExtendedMantissa.ofMantissaAndAccuracy]

theorem weight_ofFraction_le (hd : 0 < d) (hd' : 0 < d') (h : n * d' ≤ n' * d) :
    weight (ofFraction n d) ≤ weight (ofFraction n' d') := by
  have hwhole : n / d ≤ n' / d' := by
    rw [Nat.le_div_iff_mul_le hd']
    refine Nat.le_of_mul_le_mul_right ?_ hd
    calc n / d * d' * d = n / d * d * d' := by ring
      _ ≤ n * d' := Nat.mul_le_mul_right _ (Nat.div_mul_le_self n d)
      _ ≤ n' * d := h
  rw [weight_ofFraction, weight_ofFraction]
  rcases hwhole.lt_or_eq with hless | hsame
  · split_ifs <;> omega
  · -- The whole parts agree, so the rests are in the order of the fractions.
    have hrest : n % d * d' ≤ n' % d' * d := by
      have hsplit : n * d' = n / d * (d * d') + n % d * d' := by
        conv_lhs => rw [← Nat.div_add_mod n d]
        ring
      have hsplit' : n' * d = n' / d' * (d * d') + n' % d' * d := by
        conv_lhs => rw [← Nat.div_add_mod n' d']
        ring
      rw [hsplit, hsplit', hsame] at h
      exact Nat.le_of_add_le_add_left h
    have hzero : n' % d' = 0 → n % d = 0 := fun hzero ↦ by
      rw [hzero, Nat.zero_mul] at hrest
      exact (Nat.mul_eq_zero.mp (Nat.le_zero.mp hrest)).resolve_right hd'.ne'
    have hdouble : 2 * (n % d) * d' ≤ 2 * (n' % d') * d := by
      rw [Nat.mul_assoc, Nat.mul_assoc]
      exact Nat.mul_le_mul_left 2 hrest
    have hless : 2 * (n' % d') < d' → 2 * (n % d) < d := fun hless ↦ by
      refine Nat.lt_of_mul_lt_mul_right (a := d') (hdouble.trans_lt ?_)
      rw [Nat.mul_comm d]
      exact Nat.mul_lt_mul_of_pos_right hless hd
    have hhalf : 2 * (n' % d') = d' → 2 * (n % d) ≤ d := fun hhalf ↦ by
      refine Nat.le_of_mul_le_mul_right (hdouble.trans ?_) hd'
      rw [hhalf, Nat.mul_comm]
    split_ifs <;> omega

/-- Halving a significand halves its fraction. -/
theorem shiftRightOne_ofFraction (hd : 0 < d) :
    (ofFraction n d).shiftRightOne = ofFraction n (d * 2) := by
  have hrest : n % (d * 2) = n % d + d * (n / d % 2) := Nat.mod_mul
  have hless : n % d < d := Nat.mod_lt n hd
  -- Whatever the rest was, it is less than the half of two, and only counts as a rest now.
  have hinexact (o : Ordering) :
      (ExtendedMantissa.ofMantissaAndAccuracy (n / d) (.inexact o)).shiftRightOne =
        ⟨n / d / 2, n / d % 2 != 0, true⟩ := by
    cases o <;> rfl
  unfold ofFraction accuracyOfFraction
  rw [hrest, ← Nat.div_div_eq_div_mul]
  rcases Nat.mod_two_eq_zero_or_one (n / d) with hbit | hbit
  · by_cases hexact : n % d = 0
    · simp [hbit, hexact, ExtendedMantissa.ofMantissaAndAccuracy, ExtendedMantissa.shiftRightOne]
    · have hlow : compare (2 * (n % d)) (d * 2) = .lt := Nat.compare_eq_lt.mpr (by omega)
      rw [if_neg hexact, hinexact]
      simp [hbit, hexact, hlow, ExtendedMantissa.ofMantissaAndAccuracy]
  · by_cases hexact : n % d = 0
    · simp [hbit, hexact, hd.ne', Nat.mul_comm d, ExtendedMantissa.ofMantissaAndAccuracy,
        ExtendedMantissa.shiftRightOne]
    · have hhigh : compare (2 * (n % d + d)) (d * 2) = .gt := Nat.compare_eq_gt.mpr (by omega)
      rw [if_neg hexact, hinexact]
      simp [hbit, hexact, hhigh, ExtendedMantissa.ofMantissaAndAccuracy]

theorem shift_ofFraction (hd : 0 < d) (n k : Nat) :
    ofFraction n d >>> k = ofFraction n (d * 2 ^ k) := by
  induction k with
  | zero => rw [Nat.pow_zero, Nat.mul_one]; rfl
  | succ k ih =>
    rw [Nat.pow_succ, ← Nat.mul_assoc, ← shiftRightOne_ofFraction (by positivity), ← ih]
    rfl

/-! ### Sizes -/

variable {f : Format} {e e' : Int}

/-- The size of a fraction with an exponent. -/
def quantity (n d : Nat) (e : Int) : ℚ := n / d * 2 ^ e

theorem two_pow_pos (e : Int) : (0 : ℚ) < 2 ^ e := zpow_pos (by norm_num) e

theorem two_pow_add (e e' : Int) : (2 : ℚ) ^ (e + e') = 2 ^ e * 2 ^ e' :=
  zpow_add₀ (by norm_num) e e'

/-- A fraction lies below the power of two above the leading bit of its whole part. -/
theorem quantity_lt_two_pow (hd : 0 < d) (n : Nat) (e : Int) :
    quantity n d e < 2 ^ totalExponent (n / d) e := by
  have hd' : (0 : ℚ) < d := mod_cast hd
  have hlog : n < 2 ^ ((n / d).log2 + 1) * d := (Nat.div_lt_iff_lt_mul hd).mp Nat.lt_log2_self
  rw [quantity, totalExponent, two_pow_add]
  refine mul_lt_mul_of_pos_right ((div_lt_iff₀ hd').mpr ?_) (two_pow_pos e)
  exact_mod_cast hlog

/-- A fraction that is at least one with its exponent left out is not smaller than the leading bit
of its whole part. -/
theorem two_pow_le_quantity (hd : 0 < d) (hpos : 0 < n / d) (e : Int) :
    2 ^ (totalExponent (n / d) e - 1) ≤ quantity n d e := by
  have hd' : (0 : ℚ) < d := mod_cast hd
  have hlog : 2 ^ (n / d).log2 * d ≤ n :=
    (Nat.le_div_iff_mul_le hd).mp (Nat.log2_self_le hpos.ne')
  have hexponent : totalExponent (n / d) e - 1 = ((n / d).log2 : Int) + e := by
    rw [totalExponent]
    omega
  rw [quantity, hexponent, two_pow_add]
  refine mul_le_mul_of_nonneg_right ((le_div_iff₀ hd').mpr ?_) (two_pow_pos e).le
  exact_mod_cast hlog

/-- The exponent of a fraction can be raised at the cost of its divisor. -/
theorem quantity_shift (n d : Nat) {place : Int} (hle : e ≤ place) :
    quantity n d e = quantity n (d * 2 ^ (place - e).toNat) place := by
  have hplace : place = e + ((place - e).toNat : Nat) := by omega
  have hpower : (2 : ℚ) ^ place = 2 ^ e * 2 ^ (place - e).toNat := by
    conv_lhs => rw [hplace, two_pow_add, zpow_natCast]
  have hne : (2 : ℚ) ^ (place - e).toNat ≠ 0 := by positivity
  rw [quantity, quantity, hpower, Nat.cast_mul, Nat.cast_pow, Nat.cast_ofNat]
  field_simp

/-- Fractions with one exponent compare as their cross products do. -/
theorem quantity_le_iff (hd : 0 < d) (hd' : 0 < d') (e : Int) :
    quantity n d e ≤ quantity n' d' e ↔ n * d' ≤ n' * d := by
  have hd₀ : (0 : ℚ) < d := mod_cast hd
  have hd₀' : (0 : ℚ) < d' := mod_cast hd'
  rw [quantity, quantity, mul_le_mul_iff_left₀ (two_pow_pos e), div_le_div_iff₀ hd₀ hd₀']
  exact_mod_cast Iff.rfl

/-! ### Rounding -/

/-- A significand that is rounded to more than the least exponent comes out full. -/
theorem le_roundedTo {m : Nat} (accuracy : Accuracy)
    (hright : e ≤ f.targetExponent (totalExponent m e))
    (hleast : f.minExponent < f.targetExponent (totalExponent m e)) :
    0 < m ∧ 2 ^ f.mantissaBitsWithoutImplicit ≤ roundedTo f m e accuracy := by
  have hbits := mantissaBits_eq f
  have hlong : 0 < f.mantissaBitsWithoutImplicit := f.hm
  have htarget := targetExponent_eq f (totalExponent m e)
  have hplace : totalExponent m e = m.log2 + 1 + e := rfl
  have hm : 0 < m := by
    by_contra hzero
    obtain rfl : m = 0 := by omega
    rw [Nat.log2_zero] at hplace
    omega
  have hshift : shiftTo f m e = (f.targetExponent (totalExponent m e) - e).toNat := rfl
  exact ⟨hm, (two_pow_le_div hm (by omega)).trans (div_le_roundedTo f m e accuracy)⟩

/-- The units of a fraction with an exponent that is rounded to a format. -/
def roundedFraction (f : Format) (n d : Nat) (e : Int) : Nat :=
  roundedTo f (n / d) e (accuracyOfFraction (n % d) d) *
    2 ^ (f.targetExponent (totalExponent (n / d) e) - f.minExponent).toNat

theorem targetExponent_mono (hd : 0 < d) (hd' : 0 < d')
    (hright : e ≤ f.targetExponent (totalExponent (n / d) e))
    (hle : quantity n d e ≤ quantity n' d' e') :
    f.targetExponent (totalExponent (n / d) e) ≤ f.targetExponent (totalExponent (n' / d') e') := by
  by_contra hless
  have htarget := targetExponent_eq f (totalExponent (n / d) e)
  have htarget' := targetExponent_eq f (totalExponent (n' / d') e')
  obtain ⟨hpos, -⟩ := le_roundedTo (f := f) .exact hright (by omega)
  have hpower : (2 : ℚ) ^ (totalExponent (n / d) e - 1) < 2 ^ totalExponent (n' / d') e' :=
    ((two_pow_le_quantity hd hpos e).trans hle).trans_lt (quantity_lt_two_pow hd' n' e')
  have hplace := (zpow_lt_zpow_iff_right₀ (by norm_num : (1 : ℚ) < 2)).mp hpower
  omega

/-- Of two fractions the larger one has no fewer units when both are rounded. -/
theorem roundedFraction_mono (hd : 0 < d) (hd' : 0 < d')
    (hright : e ≤ f.targetExponent (totalExponent (n / d) e))
    (hright' : e' ≤ f.targetExponent (totalExponent (n' / d') e'))
    (hle : quantity n d e ≤ quantity n' d' e') :
    roundedFraction f n d e ≤ roundedFraction f n' d' e' := by
  have hmono := targetExponent_mono hd hd' hright hle
  have hleast := targetExponent_eq f (totalExponent (n / d) e)
  unfold roundedFraction
  rcases hmono.lt_or_eq with hless | hsame
  · -- The larger fraction is rounded to a larger exponent: a power of two lies between the two.
    obtain ⟨-, hfull⟩ :=
      le_roundedTo (accuracyOfFraction (n' % d') d') hright' (by omega)
    set bits := f.mantissaBitsWithoutImplicit with hbits
    set place := f.targetExponent (totalExponent (n / d) e)
    set place' := f.targetExponent (totalExponent (n' / d') e')
    calc roundedTo f (n / d) e (accuracyOfFraction (n % d) d) * 2 ^ (place - f.minExponent).toNat
        ≤ 2 ^ f.mantissaBits * 2 ^ (place - f.minExponent).toNat :=
          Nat.mul_le_mul_right _ (roundedTo_le_two_pow f _ e _)
      _ = 2 ^ bits * 2 ^ ((place - f.minExponent).toNat + 1) := by
        rw [mantissaBits_eq, ← hbits]
        ring
      _ ≤ 2 ^ bits * 2 ^ (place' - f.minExponent).toNat :=
        Nat.mul_le_mul_left _ (Nat.pow_le_pow_right (by decide) (by omega))
      _ ≤ roundedTo f (n' / d') e' (accuracyOfFraction (n' % d') d') *
          2 ^ (place' - f.minExponent).toNat := Nat.mul_le_mul_right _ hfull
  · rw [← hsame]
    refine Nat.mul_le_mul_right _ (roundedMantissa_mono ?_)
    show weight (ofFraction n d >>> shiftTo f (n / d) e) ≤
      weight (ofFraction n' d' >>> shiftTo f (n' / d') e')
    rw [shift_ofFraction hd, shift_ofFraction hd']
    refine weight_ofFraction_le (by positivity) (by positivity) ?_
    rw [← quantity_le_iff (by positivity) (by positivity)
      (f.targetExponent (totalExponent (n / d) e))]
    rw [quantity_shift n d hright, quantity_shift n' d' hright', ← hsame] at hle
    rwa [shiftTo, shiftTo, ← hsame]

/-- A fraction as a word holds it. -/
def heldFraction (f : Format) (n d : Nat) (e : Int) : Nat :=
  min (roundedFraction f n d e) (limitIn f)

theorem heldFraction_mono (hd : 0 < d) (hd' : 0 < d')
    (hright : e ≤ f.targetExponent (totalExponent (n / d) e))
    (hright' : e' ≤ f.targetExponent (totalExponent (n' / d') e'))
    (hle : quantity n d e ≤ quantity n' d' e') : heldFraction f n d e ≤ heldFraction f n' d' e' :=
  min_le_min_right _ (roundedFraction_mono hd hd' hright hright' hle)

/-- A fraction that is rounded and packed into a word is read as the word holds it. -/
theorem packedValue_fraction (hf : 2 ≤ f.exponentBits) (s : Sign) {accuracy : Accuracy}
    (haccuracy : accuracy = accuracyOfFraction (n % d) d)
    (hright : e ≤ f.targetExponent (totalExponent (n / d) e)) :
    packedValue f (roundWithAccuracy f s (n / d) e accuracy) =
      s.apply (heldFraction f n d e) := by
  subst haccuracy
  set place := f.targetExponent (totalExponent (n / d) e) with hplace
  have hleast : f.minExponent ≤ place := le_max_right _ _
  have hexponent : e + shiftTo f (n / d) e = place := by
    rw [shiftTo]
    omega
  have hround := roundWithAccuracy_eq_dite f s (n / d) e (accuracyOfFraction (n % d) d)
  simp only [hexponent] at hround
  have hunits : roundedFraction f n d e =
      roundedTo f (n / d) e (accuracyOfFraction (n % d) d) * 2 ^ (place - f.minExponent).toNat :=
    rfl
  rcases Nat.eq_zero_or_pos (roundedTo f (n / d) e (accuracyOfFraction (n % d) d)) with
    hzero | hpos
  · rw [hround, dif_pos (by rw [hzero, Nat.zero_div]), packedValue_zero, heldFraction, hunits,
      hzero, Nat.zero_mul, Nat.zero_min]
    cases s <;> rfl
  · have hfull : 2 ^ f.mantissaBitsWithoutImplicit ≤
        roundedTo f (n / d) e (accuracyOfFraction (n % d) d) ∨ place = f.minExponent := by
      rcases hleast.lt_or_eq with hlarge | heq
      · exact Or.inl (le_roundedTo _ hright hlarge).2
      · exact Or.inr heq.symm
    -- A carry moves the exponent up by one, and the number of units stays the same.
    obtain ⟨hfits, hkept⟩ := fits_carry hpos (roundedTo_le_two_pow f _ e _) hleast hfull
    have hsame (m k : Nat) :
        unitsIn f m (place + k) = m * 2 ^ k * 2 ^ (place - f.minExponent).toNat := by
      have hshift : (place + k - f.minExponent).toNat = k + (place - f.minExponent).toNat := by
        omega
      rw [unitsIn, hshift, Nat.pow_add, Nat.mul_assoc]
    rw [hround, dif_neg hfits.pos.ne', packedValue_fits hf hfits, heldIntIn_apply, heldIn,
      roundedIn_unitsIn hfits, hsame, hkept, heldFraction, hunits]

/-! ### Sizes as a word holds them -/

/-- The units of the number that a word holds in the place of a size. -/
def heldSize (f : Format) (q : ℚ) : Nat :=
  heldFraction f (q / 2 ^ f.minExponent).num.natAbs (q / 2 ^ f.minExponent).den f.minExponent

variable {q q' : ℚ}

theorem quantity_num_den (hq : 0 ≤ q) (e : Int) :
    quantity (q / 2 ^ e).num.natAbs (q / 2 ^ e).den e = q := by
  have hnonneg : 0 ≤ (q / 2 ^ e).num := Rat.num_nonneg.mpr (div_nonneg hq (two_pow_pos e).le)
  have hnum : (((q / 2 ^ e).num.natAbs : Nat) : ℚ) = (q / 2 ^ e).num := by
    rw [Nat.cast_natAbs, abs_of_nonneg hnonneg]
  rw [quantity, hnum, Rat.num_div_den, div_mul_cancel₀ _ (two_pow_pos e).ne']

theorem quantity_nonneg (n d : Nat) (e : Int) : 0 ≤ quantity n d e := by
  unfold quantity
  positivity

/-- What a word holds in the place of a fraction depends on its size alone. -/
theorem heldFraction_eq (hd : 0 < d) (hright : e ≤ f.targetExponent (totalExponent (n / d) e)) :
    heldFraction f n d e = heldSize f (quantity n d e) := by
  have hsame := quantity_num_den (quantity_nonneg n d e) f.minExponent
  have hden := (quantity n d e / 2 ^ f.minExponent).den_pos
  have hleast (t : Int) : f.minExponent ≤ f.targetExponent t := le_max_right _ _
  exact Nat.le_antisymm (heldFraction_mono hd hden hright (hleast _) hsame.ge)
    (heldFraction_mono hden hd (hleast _) hright hsame.le)

theorem heldSize_mono (hq : 0 ≤ q) (hle : q ≤ q') : heldSize f q ≤ heldSize f q' := by
  have hleast (t : Int) : f.minExponent ≤ f.targetExponent t := le_max_right _ _
  refine heldFraction_mono (Rat.den_pos _) (Rat.den_pos _) (hleast _) (hleast _) ?_
  rwa [quantity_num_den hq, quantity_num_den (hq.trans hle)]

theorem heldSize_zero (f : Format) : heldSize f 0 = 0 := by
  have hround (k : Nat) : (ofFraction 0 1 >>> k).roundedMantissa = 0 := by
    rw [shift_ofFraction Nat.one_pos, ofFraction, Nat.zero_div, Nat.zero_mod]
    rfl
  have hcut : roundedFraction f 0 1 f.minExponent = 0 := by
    show (ofFraction 0 1 >>> shiftTo f 0 f.minExponent).roundedMantissa * _ = 0
    rw [hround, Nat.zero_mul]
  rw [heldSize, zero_div]
  show min (roundedFraction f 0 1 f.minExponent) (limitIn f) = 0
  rw [hcut, Nat.zero_min]

theorem heldSize_le_limitIn (f : Format) (q : ℚ) : heldSize f q ≤ limitIn f := min_le_right _ _

/-! ### Packing -/

/-- Whether a number is packed into a word as the size that it stands for. -/
structure PacksAs (f : Format) (x : UnpackedFloat) (q : ℚ) : Prop where
  ne_notANumber : x ≠ .notANumber
  packedValue_eq : packedValue f x = heldSize f q

theorem packsAs_zero (f : Format) (s : Sign) : PacksAs f (.zero s) 0 := by
  refine ⟨nofun, ?_⟩
  rw [packedValue_zero, heldSize_zero]
  rfl

theorem packsAs_fraction (hf : 2 ≤ f.exponentBits) (hd : 0 < d) {accuracy : Accuracy}
    (haccuracy : accuracy = accuracyOfFraction (n % d) d)
    (hright : e ≤ f.targetExponent (totalExponent (n / d) e)) :
    PacksAs f (roundWithAccuracy f .positive (n / d) e accuracy) (quantity n d e) := by
  refine ⟨?_, ?_⟩
  · simp only [roundWithAccuracy_eq_dite]
    split_ifs <;> exact nofun
  · rw [packedValue_fraction hf .positive haccuracy hright, heldFraction_eq hd hright]
    rfl

/-- A whole number with an exponent is a fraction too. -/
theorem packsAs_whole (hf : 2 ≤ f.exponentBits)
    (hright : e ≤ f.targetExponent (totalExponent n e)) :
    PacksAs f (roundWithAccuracy f .positive n e .exact) (quantity n 1 e) := by
  have hwhole : n / 1 = n := Nat.div_one n
  have hpacked : PacksAs f (roundWithAccuracy f .positive (n / 1) e .exact) (quantity n 1 e) :=
    packsAs_fraction hf Nat.one_pos (by rw [Nat.mod_one]; rfl) (by rwa [hwhole])
  rwa [hwhole] at hpacked

/-- The order of sizes is the order of what words hold in their place. -/
theorem PacksAs.mono {x y : UnpackedFloat} (hx : PacksAs f x q) (hy : PacksAs f y q') (hq : 0 ≤ q)
    (hle : q ≤ q') : packedValue f x ≤ packedValue f y := by
  rw [hx.packedValue_eq, hy.packedValue_eq]
  exact_mod_cast heldSize_mono hq hle

theorem PacksAs.packedValue_nonneg {x : UnpackedFloat} (h : PacksAs f x q) :
    0 ≤ packedValue f x := by
  rw [h.packedValue_eq]
  exact Int.natCast_nonneg _

theorem PacksAs.packedValue_le {x : UnpackedFloat} (h : PacksAs f x q) :
    packedValue f x ≤ limitIn f := by
  rw [h.packedValue_eq]
  exact_mod_cast heldSize_le_limitIn f q

end LayerCanvas.Binary
