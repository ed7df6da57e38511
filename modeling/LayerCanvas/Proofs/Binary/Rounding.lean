import LayerCanvas.Proofs.Binary.Quotient

/-!
Rounding keeps the order. A number of units is cut to the bits that a significand holds, and goes
half way to the even neighbour. Of two numbers that lose the same bits the larger one stays the
larger one, since the significand with the bits for the half and for the rest does. If the larger
one loses more bits, a power of two lies between the two, and rounding does not cross it.
-/

set_option autoImplicit false
set_option relaxedAutoImplicit false

namespace LayerCanvas.Binary

open Float.Model (Format UnpackedFloat totalExponent)
open Float.Model.UnpackedFloat

/-! ### Significands with two bits more -/

/-- A significand with the bit for the half and the bit for the rest, as one number. -/
def weight (em : ExtendedMantissa) : Nat :=
  4 * em.mantissa + 2 * em.roundBit.toNat + em.stickyBit.toNat

theorem weight_shiftRightOne (em : ExtendedMantissa) :
    weight em.shiftRightOne = 2 * em.mantissa + (em.roundBit || em.stickyBit).toNat := by
  have hbit : (em.mantissa % 2 != 0).toNat = em.mantissa % 2 := by
    rcases Nat.mod_two_eq_zero_or_one em.mantissa with h | h <;> simp [h]
  unfold weight ExtendedMantissa.shiftRightOne
  simp only [hbit]
  omega

theorem weight_shiftRightOne_le {a b : ExtendedMantissa} (h : weight a ≤ weight b) :
    weight a.shiftRightOne ≤ weight b.shiftRightOne := by
  rw [weight_shiftRightOne, weight_shiftRightOne]
  obtain ⟨m, round, sticky⟩ := a
  obtain ⟨m', round', sticky'⟩ := b
  cases round <;> cases sticky <;> cases round' <;> cases sticky' <;> simp [weight] at h ⊢ <;> omega

theorem weight_shift_le {a b : ExtendedMantissa} (h : weight a ≤ weight b) (k : Nat) :
    weight (a >>> k) ≤ weight (b >>> k) := by
  induction k with
  | zero => exact h
  | succ k ih => exact weight_shiftRightOne_le ih

theorem roundedMantissa_mono {a b : ExtendedMantissa} (h : weight a ≤ weight b) :
    a.roundedMantissa ≤ b.roundedMantissa := by
  obtain ⟨m, round, sticky⟩ := a
  obtain ⟨m', round', sticky'⟩ := b
  cases round <;> cases sticky <;> cases round' <;> cases sticky' <;>
    simp [weight, ExtendedMantissa.roundedMantissa, ExtendedMantissa.accuracy,
      Accuracy.roundToNearestEven] at h ⊢ <;> omega

/-! ### Dividing by a power of two -/

/-- A number divided by a power of two and rounded, half way to the even neighbour. -/
def cutBy (n k : Nat) : Nat :=
  (ExtendedMantissa.ofMantissaAndAccuracy n .exact >>> k).roundedMantissa

theorem cutBy_zero (n : Nat) : cutBy n 0 = n := rfl

theorem cutBy_mono {n n' : Nat} (h : n ≤ n') (k : Nat) : cutBy n k ≤ cutBy n' k := by
  refine roundedMantissa_mono (weight_shift_le ?_ k)
  simpa [weight, ExtendedMantissa.ofMantissaAndAccuracy] using h

theorem div_le_cutBy (n k : Nat) : n / 2 ^ k ≤ cutBy n k := by
  have hle := le_roundedMantissa (ExtendedMantissa.ofMantissaAndAccuracy n .exact >>> k)
  rwa [mantissa_shift, mantissa_ofMantissaAndAccuracy] at hle

theorem cutBy_le (n k : Nat) : cutBy n k ≤ n / 2 ^ k + 1 := by
  have hle := roundedMantissa_le (ExtendedMantissa.ofMantissaAndAccuracy n .exact >>> k)
  have hround : (ExtendedMantissa.ofMantissaAndAccuracy n .exact >>> k).roundBit.toNat ≤ 1 :=
    Bool.toNat_le _
  rw [doubled, mantissa_shift, mantissa_ofMantissaAndAccuracy] at hle
  unfold cutBy
  omega

theorem shift_shift (em : ExtendedMantissa) (j k : Nat) : em >>> (k + j) = em >>> j >>> k := by
  induction k with
  | zero => rw [Nat.zero_add]; rfl
  | succ k ih =>
    rw [Nat.add_right_comm]
    exact congrArg ExtendedMantissa.shiftRightOne ih

/-- Bits that are zero go without a trace. -/
theorem shift_ofMantissa_mul (n j : Nat) :
    ExtendedMantissa.ofMantissaAndAccuracy (n * 2 ^ j) .exact >>> j =
      .ofMantissaAndAccuracy n .exact := by
  induction j generalizing n with
  | zero => rw [Nat.pow_zero, Nat.mul_one]; rfl
  | succ j ih =>
    have hsplit : n * 2 ^ (j + 1) = 2 * n * 2 ^ j := by ring
    rw [Nat.add_comm j 1, shift_shift, Nat.add_comm 1 j, hsplit, ih]
    show ExtendedMantissa.shiftRightOne ⟨2 * n, false, false⟩ = ⟨n, false, false⟩
    simp [ExtendedMantissa.shiftRightOne]

theorem cutBy_mul (n j k : Nat) : cutBy (n * 2 ^ j) (k + j) = cutBy n k := by
  unfold cutBy
  rw [shift_shift, shift_ofMantissa_mul]

/-! ### Cutting to the length of a significand -/

variable {f : Format} {m m₁ m₂ : Nat} {e e₁ e₂ : Int}

/-- A number cut to the bits that the significand of a format holds. -/
def roundedIn (f : Format) (n : Nat) : Nat :=
  cutBy n (n.log2 - f.mantissaBitsWithoutImplicit) * 2 ^ (n.log2 - f.mantissaBitsWithoutImplicit)

/-- What is left of a number when it is cut fits the significand, or is the next power of two. -/
theorem cutBy_log2_le (f : Format) (n : Nat) :
    cutBy n (n.log2 - f.mantissaBitsWithoutImplicit) ≤ 2 ^ f.mantissaBits := by
  have hdiv : n / 2 ^ (n.log2 - f.mantissaBitsWithoutImplicit) < 2 ^ f.mantissaBits :=
    div_lt_two_pow (by rw [mantissaBits_eq]; omega)
  exact (cutBy_le n _).trans hdiv

theorem le_cutBy_log2 {n : Nat} (h : f.mantissaBitsWithoutImplicit ≤ n.log2) :
    2 ^ f.mantissaBitsWithoutImplicit ≤ cutBy n (n.log2 - f.mantissaBitsWithoutImplicit) := by
  rcases Nat.eq_zero_or_pos n with rfl | hn
  · rw [Nat.log2_zero] at h
    exact absurd f.hm (by omega)
  · exact (two_pow_le_div hn (by omega)).trans (div_le_cutBy n _)

theorem roundedIn_mono (f : Format) {n n' : Nat} (h : n ≤ n') : roundedIn f n ≤ roundedIn f n' := by
  have hlog : n.log2 ≤ n'.log2 := by
    by_cases hn : n = 0
    · simp [hn]
    · exact le_log2_of_le ((Nat.log2_self_le hn).trans h)
  unfold roundedIn
  rcases Nat.eq_or_lt_of_le (Nat.sub_le_sub_right hlog f.mantissaBitsWithoutImplicit) with
    hsame | hless
  · rw [← hsame]
    exact Nat.mul_le_mul_right _ (cutBy_mono h _)
  · -- The larger number loses more bits: a power of two lies between the two.
    set bits := f.mantissaBitsWithoutImplicit with hbits
    calc cutBy n (n.log2 - bits) * 2 ^ (n.log2 - bits)
        ≤ 2 ^ f.mantissaBits * 2 ^ (n.log2 - bits) :=
          Nat.mul_le_mul_right _ (cutBy_log2_le f n)
      _ = 2 ^ bits * 2 ^ (n.log2 - bits + 1) := by
        rw [mantissaBits_eq, ← hbits]
        ring
      _ ≤ 2 ^ bits * 2 ^ (n'.log2 - bits) :=
        Nat.mul_le_mul_left _ (Nat.pow_le_pow_right (by decide) hless)
      _ ≤ cutBy n' (n'.log2 - bits) * 2 ^ (n'.log2 - bits) :=
        Nat.mul_le_mul_right _ (le_cutBy_log2 (by omega))

/-! ### Significands with an exponent -/

/-- The size of a significand with an exponent, in units of the least positive number of a format.
-/
def unitsIn (f : Format) (m : Nat) (e : Int) : Nat := m * 2 ^ (e - f.minExponent).toNat

theorem unitsIn_pos (f : Format) (e : Int) (hm : 0 < m) : 0 < unitsIn f m e :=
  Nat.mul_pos hm (Nat.two_pow_pos _)

/-- Of two numbers that a format holds the one with the larger exponent is larger. -/
theorem unitsIn_lt_of_lt (h₁ : Fits f m₁ e₁) (h₂ : Fits f m₂ e₂) (h : e₁ < e₂) :
    unitsIn f m₁ e₁ < unitsIn f m₂ e₂ := by
  have hleast := h₁.least
  calc unitsIn f m₁ e₁ < 2 ^ f.mantissaBits * 2 ^ (e₁ - f.minExponent).toNat :=
        Nat.mul_lt_mul_of_pos_right h₁.short (Nat.two_pow_pos _)
    _ = 2 ^ f.mantissaBitsWithoutImplicit * 2 ^ ((e₁ - f.minExponent).toNat + 1) := by
      rw [mantissaBits_eq]
      ring
    _ ≤ 2 ^ f.mantissaBitsWithoutImplicit * 2 ^ (e₂ - f.minExponent).toNat :=
      Nat.mul_le_mul_left _ (Nat.pow_le_pow_right (by decide) (by omega))
    _ ≤ unitsIn f m₂ e₂ := Nat.mul_le_mul_right _ (h₂.full.resolve_right (by omega))

/-- Of two numbers with the same sign the exponents decide, and then the significands. -/
theorem compare_unitsIn (h₁ : Fits f m₁ e₁) (h₂ : Fits f m₂ e₂) :
    (compare e₁ e₂).then (compare m₁ m₂) =
      compare (unitsIn f m₁ e₁ : Int) (unitsIn f m₂ e₂) := by
  rcases Int.lt_trichotomy e₁ e₂ with hlt | rfl | hgt
  · have hunits : (unitsIn f m₁ e₁ : Int) < unitsIn f m₂ e₂ :=
      mod_cast unitsIn_lt_of_lt h₁ h₂ hlt
    rw [Int.compare_eq_lt.mpr hlt, Int.compare_eq_lt.mpr hunits]
    rfl
  · have hpower : 0 < 2 ^ (e₁ - f.minExponent).toNat := Nat.two_pow_pos _
    rw [Int.compare_eq_eq.mpr rfl]
    show compare m₁ m₂ = _
    rcases Nat.lt_trichotomy m₁ m₂ with hlt | rfl | hgt
    · have hunits : (unitsIn f m₁ e₁ : Int) < unitsIn f m₂ e₁ :=
        mod_cast Nat.mul_lt_mul_of_pos_right hlt hpower
      rw [Nat.compare_eq_lt.mpr hlt, Int.compare_eq_lt.mpr hunits]
    · rw [Nat.compare_eq_eq.mpr rfl, Int.compare_eq_eq.mpr rfl]
    · have hunits : (unitsIn f m₂ e₁ : Int) < unitsIn f m₁ e₁ :=
        mod_cast Nat.mul_lt_mul_of_pos_right hgt hpower
      rw [Nat.compare_eq_gt.mpr hgt, Int.compare_eq_gt.mpr hunits]
  · have hunits : (unitsIn f m₂ e₂ : Int) < unitsIn f m₁ e₁ :=
      mod_cast unitsIn_lt_of_lt h₂ h₁ hgt
    rw [Int.compare_eq_gt.mpr hgt, Int.compare_eq_gt.mpr hunits]
    rfl

/-- A number that a format holds is not changed. -/
theorem roundedIn_unitsIn (h : Fits f m e) : roundedIn f (unitsIn f m e) = unitsIn f m e := by
  have hlog : (unitsIn f m e).log2 = m.log2 + (e - f.minExponent).toNat :=
    log2_mul_two_pow h.pos.ne' _
  have hbits := mantissaBits_eq f
  have hshort : m.log2 < f.mantissaBits := log2_lt_of_lt (by omega) h.short
  have hcut : (unitsIn f m e).log2 - f.mantissaBitsWithoutImplicit =
      (e - f.minExponent).toNat := by
    rw [hlog]
    rcases h.full with hfull | hleast
    · have hm : f.mantissaBitsWithoutImplicit ≤ m.log2 := le_log2_of_le hfull
      omega
    · omega
  have hkept : cutBy (unitsIn f m e) (e - f.minExponent).toNat = m := by
    rw [← Nat.zero_add (e - f.minExponent).toNat]
    exact (cutBy_mul m _ 0).trans (cutBy_zero m)
  rw [roundedIn, hcut, hkept, unitsIn]

/-- Rounding a significand with an exponent cuts it to the bits that the format holds. -/
theorem round_unitsIn (f : Format) (s : Sign) {n : Nat} {e : Int} (hn : 0 < n)
    (he : f.minExponent ≤ e) :
    ∃ m e', ∃ h : Fits f m e', UnpackedFloat.round f s n e = .finite s m e' h.pos ∧
      unitsIn f m e' = roundedIn f (unitsIn f n e) := by
  have hbits := mantissaBits_eq f
  have hlog : (unitsIn f n e).log2 = n.log2 + (e - f.minExponent).toNat :=
    log2_mul_two_pow hn.ne' _
  set cut := (unitsIn f n e).log2 - f.mantissaBitsWithoutImplicit with hcut
  -- The exponent is lowered first if the significand is short.
  set low := (e - f.targetExponent (totalExponent n e)).toNat with hlow
  have htarget : f.targetExponent (totalExponent n e) = cut + f.minExponent := by
    rw [targetExponent_eq, totalExponent]
    omega
  have htotal : totalExponent (n * 2 ^ low) (e - low) = totalExponent n e := by
    rw [totalExponent, totalExponent, log2_mul_two_pow hn.ne']
    omega
  have hshift : (shiftTo f (n * 2 ^ low) (e - low) : Int) =
      cut + f.minExponent - (e - low) := by
    rw [shiftTo, htotal, htarget]
    omega
  have hunits : n * 2 ^ low * 2 ^ (e - low - f.minExponent).toNat = unitsIn f n e := by
    rw [unitsIn, Nat.mul_assoc, ← Nat.pow_add]
    congr 2
    omega
  have hfirst : roundedTo f (n * 2 ^ low) (e - low) .exact = cutBy (unitsIn f n e) cut := by
    rw [roundedTo, ← cutBy, ← cutBy_mul _ (e - low - f.minExponent).toNat, hunits]
    congr 1
    omega
  have hround := roundWithAccuracy_eq_dite f s (n * 2 ^ low) (e - low) .exact
  simp only [hfirst, show e - low + (shiftTo f (n * 2 ^ low) (e - low) : Int) =
    cut + f.minExponent by omega] at hround
  have hpos : 0 < cutBy (unitsIn f n e) cut := by
    rcases Nat.lt_or_ge (unitsIn f n e).log2 f.mantissaBitsWithoutImplicit with hshort | hfull
    · rw [show cut = 0 by omega, cutBy_zero]
      exact unitsIn_pos f e hn
    · exact (Nat.two_pow_pos _).trans_le (le_cutBy_log2 hfull)
  have hfull : 2 ^ f.mantissaBitsWithoutImplicit ≤ cutBy (unitsIn f n e) cut ∨
      cut + f.minExponent = f.minExponent := by
    rcases Nat.lt_or_ge (unitsIn f n e).log2 f.mantissaBitsWithoutImplicit with hshort | hfull
    · exact Or.inr (by omega)
    · exact Or.inl (le_cutBy_log2 hfull)
  obtain ⟨hfits, hkept⟩ := fits_carry hpos (cutBy_log2_le f _) (by omega) hfull
  rw [dif_neg hfits.pos.ne'] at hround
  refine ⟨_, _, hfits, ?_, ?_⟩
  · rw [← hround, ← Nat.shiftLeft_eq]
    rfl
  · have hexponent (carried : Nat) :
        ((cut : Int) + f.minExponent + carried - f.minExponent).toNat = carried + cut := by omega
    rw [unitsIn, hexponent, Nat.pow_add, ← Nat.mul_assoc, hkept, roundedIn]

/-! ### Double precision -/

/-- A number cut to the bits that a significand holds. -/
def rounded (n : Nat) : Nat := cutBy n (n.log2 - 52) * 2 ^ (n.log2 - 52)

/-- The size of a significand with an exponent, in units of the least positive number. -/
def units (m : Nat) (e : Int) : Nat := m * 2 ^ (e + 1074).toNat

theorem roundedIn_binary64 (n : Nat) : roundedIn .binary64 n = rounded n := rfl

theorem unitsIn_binary64 (m : Nat) (e : Int) : unitsIn .binary64 m e = units m e := rfl

theorem rounded_mono {n n' : Nat} (h : n ≤ n') : rounded n ≤ rounded n' :=
  roundedIn_mono .binary64 h

theorem units_pos {m : Nat} {e : Int} (hm : 0 < m) : 0 < units m e :=
  Nat.mul_pos hm (Nat.two_pow_pos _)

/-- A number that a word can hold is not changed. -/
theorem rounded_units (h : Canonical m e) : rounded (units m e) = units m e := by
  rw [← unitsIn_binary64, ← roundedIn_binary64]
  exact roundedIn_unitsIn h.fits

theorem units_lt_of_lt (h₁ : Canonical m₁ e₁) (h₂ : Canonical m₂ e₂) (h : e₁ < e₂) :
    units m₁ e₁ < units m₂ e₂ := by
  rw [← unitsIn_binary64, ← unitsIn_binary64]
  exact unitsIn_lt_of_lt h₁.fits h₂.fits h

/-- Rounding a significand with an exponent cuts it to the bits that a word holds. -/
theorem round_units (s : Sign) {n : Nat} {e : Int} (hn : 0 < n) (he : -1074 ≤ e) :
    ∃ m e' hm, UnpackedFloat.round .binary64 s n e = .finite s m e' hm ∧ Canonical m e' ∧
      units m e' = rounded (units n e) := by
  obtain ⟨m, e', hfits, hround, hunits⟩ := round_unitsIn .binary64 s hn he
  rw [unitsIn_binary64, unitsIn_binary64, roundedIn_binary64] at hunits
  exact ⟨m, e', hfits.pos, hround, hfits.canonical, hunits⟩

end LayerCanvas.Binary
