import LayerCanvas.Scalar
import Mathlib

/-!
Rounding to a format, of whatever precision. The leading bit of a number that is not too small stays
at its place, or moves up by one when the rounding carries. What comes out is held by the format,
and a word of the format gives it back unless its exponent is too large.
-/

set_option autoImplicit false
set_option relaxedAutoImplicit false

namespace LayerCanvas.Binary

open Float.Model (Format UnpackedFloat totalExponent)
open Float.Model.UnpackedFloat

variable {f : Format} {m : Nat} {e : Int}

/-- A significand with its exponent, as a format holds them. -/
structure Fits (f : Format) (m : Nat) (e : Int) : Prop where
  pos : 0 < m
  short : m < 2 ^ f.mantissaBits
  least : f.minExponent ≤ e
  full : 2 ^ f.mantissaBitsWithoutImplicit ≤ m ∨ e = f.minExponent

/-! ### Leading bits -/

theorem le_log2_of_le {m k : Nat} (h : 2 ^ k ≤ m) : k ≤ m.log2 :=
  (Nat.le_log2 (Nat.lt_of_lt_of_le (Nat.two_pow_pos k) h).ne').mpr h

theorem log2_lt_of_lt {m k : Nat} (hk : 0 < k) (h : m < 2 ^ k) : m.log2 < k := by
  by_cases hm : m = 0
  · rwa [hm, Nat.log2_zero]
  · exact (Nat.log2_lt hm).mpr h

theorem log2_mul_two_pow {n : Nat} (hn : n ≠ 0) (k : Nat) : (n * 2 ^ k).log2 = n.log2 + k := by
  have hne : n * 2 ^ k ≠ 0 := Nat.mul_ne_zero hn (Nat.two_pow_pos k).ne'
  rw [Nat.log2_eq_iff hne, Nat.pow_add, Nat.add_right_comm, Nat.pow_add]
  exact ⟨Nat.mul_le_mul_right _ (Nat.log2_self_le hn),
    Nat.mul_lt_mul_of_pos_right Nat.lt_log2_self (Nat.two_pow_pos k)⟩

theorem two_pow_le_div {k shift : Nat} (hm : 0 < m) (h : k + shift ≤ m.log2) :
    2 ^ k ≤ m / 2 ^ shift := by
  rw [Nat.le_div_iff_mul_le (Nat.two_pow_pos _), ← Nat.pow_add]
  exact (Nat.pow_le_pow_right (by decide) h).trans (Nat.log2_self_le hm.ne')

theorem div_lt_two_pow {k shift : Nat} (h : m.log2 < k + shift) : m / 2 ^ shift < 2 ^ k := by
  rw [Nat.div_lt_iff_lt_mul (Nat.two_pow_pos _), ← Nat.pow_add]
  exact Nat.lt_log2_self.trans_le (Nat.pow_le_pow_right (by decide) h)

/-! ### Shifting and rounding -/

/-- Twice a significand, with the bit for the half. -/
def doubled (em : ExtendedMantissa) : Nat := 2 * em.mantissa + em.roundBit.toNat

theorem mantissa_shift (em : ExtendedMantissa) (k : Nat) :
    (em >>> k).mantissa = em.mantissa / 2 ^ k := by
  induction k with
  | zero => exact (Nat.div_one _).symm
  | succ k ih =>
    show (em >>> k).mantissa / 2 = _
    rw [ih, Nat.div_div_eq_div_mul, Nat.pow_succ]

theorem mantissa_ofMantissaAndAccuracy (m : Nat) (accuracy : Accuracy) :
    (ExtendedMantissa.ofMantissaAndAccuracy m accuracy).mantissa = m := by
  rcases accuracy with _ | _ | _ | _ <;> rfl

theorem le_roundedMantissa (em : ExtendedMantissa) : em.mantissa ≤ em.roundedMantissa := by
  obtain ⟨m, round, sticky⟩ := em
  cases round <;> cases sticky <;>
    simp [ExtendedMantissa.roundedMantissa, ExtendedMantissa.accuracy, Accuracy.roundToNearestEven]

theorem roundedMantissa_le (em : ExtendedMantissa) : 2 * em.roundedMantissa ≤ doubled em + 1 := by
  obtain ⟨m, round, sticky⟩ := em
  cases round <;> cases sticky <;>
    simp [ExtendedMantissa.roundedMantissa, ExtendedMantissa.accuracy,
      Accuracy.roundToNearestEven, doubled] <;> omega

/-- How far a significand is moved to the right on its way to an exponent of a format. -/
def shiftTo (f : Format) (m : Nat) (e : Int) : Nat :=
  (f.targetExponent (totalExponent m e) - e).toNat

/-- The significand that is rounded to an exponent of a format. -/
def roundedTo (f : Format) (m : Nat) (e : Int) (accuracy : Accuracy) : Nat :=
  (ExtendedMantissa.ofMantissaAndAccuracy m accuracy >>> shiftTo f m e).roundedMantissa

theorem roundWithAccuracy_eq_dite (f : Format) (s : Sign) (m : Nat) (e : Int)
    (accuracy : Accuracy) :
    let r := roundedTo f m e accuracy
    let e' := e + shiftTo f m e
    roundWithAccuracy f s m e accuracy =
      if h : r / 2 ^ shiftTo f r e' = 0 then .zero s
      else .finite s (r / 2 ^ shiftTo f r e') (e' + shiftTo f r e') (Nat.pos_of_ne_zero h) := by
  intro r e'
  have hmantissa : (ExtendedMantissa.ofMantissaAndAccuracy r .exact >>> shiftTo f r e').mantissa =
      r / 2 ^ shiftTo f r e' := by
    rw [mantissa_shift, mantissa_ofMantissaAndAccuracy]
  simp only [← hmantissa]
  rfl

theorem div_le_roundedTo (f : Format) (m : Nat) (e : Int) (accuracy : Accuracy) :
    m / 2 ^ shiftTo f m e ≤ roundedTo f m e accuracy := by
  have hle := le_roundedMantissa
    (ExtendedMantissa.ofMantissaAndAccuracy m accuracy >>> shiftTo f m e)
  rwa [mantissa_shift, mantissa_ofMantissaAndAccuracy] at hle

theorem roundedTo_le (f : Format) (m : Nat) (e : Int) (accuracy : Accuracy) :
    roundedTo f m e accuracy ≤ m / 2 ^ shiftTo f m e + 1 := by
  have hle := roundedMantissa_le
    (ExtendedMantissa.ofMantissaAndAccuracy m accuracy >>> shiftTo f m e)
  have hround := Bool.toNat_le
    (ExtendedMantissa.ofMantissaAndAccuracy m accuracy >>> shiftTo f m e).roundBit
  rw [doubled, mantissa_shift, mantissa_ofMantissaAndAccuracy] at hle
  unfold roundedTo
  omega

theorem targetExponent_eq (f : Format) (t : Int) :
    f.targetExponent t = max (t - f.mantissaBits) f.minExponent :=
  rfl

theorem mantissaBits_eq (f : Format) : f.mantissaBits = f.mantissaBitsWithoutImplicit + 1 :=
  Nat.add_comm _ _

/-- The leading bit of a significand stays at its place, or moves up by one when the rounding
carries. -/
theorem le_log2_roundedTo (f : Format) (e : Int) (accuracy : Accuracy) (hm : 0 < m) :
    m.log2 - shiftTo f m e ≤ (roundedTo f m e accuracy).log2 := by
  rcases Nat.le_total (shiftTo f m e) m.log2 with hle | hle
  · exact le_log2_of_le ((two_pow_le_div hm (by omega)).trans (div_le_roundedTo f m e accuracy))
  · omega

theorem log2_roundedTo_le (f : Format) (m : Nat) (e : Int) (accuracy : Accuracy) :
    (roundedTo f m e accuracy).log2 ≤ m.log2 + 1 - shiftTo f m e := by
  rcases Nat.eq_zero_or_pos (roundedTo f m e accuracy) with hzero | hpos
  · rw [hzero, Nat.log2_zero]
    exact Nat.zero_le _
  · by_contra hlog
    have hlong : 2 ^ (m.log2 + 1 - shiftTo f m e + 1) ≤ roundedTo f m e accuracy :=
      (Nat.le_log2 hpos.ne').mp (by omega)
    have hshort : m / 2 ^ shiftTo f m e < 2 ^ (m.log2 + 1 - shiftTo f m e) :=
      div_lt_two_pow (by omega)
    have hle := roundedTo_le f m e accuracy
    rw [Nat.pow_succ] at hlong
    omega

/-- What is left of a significand is held by the format, or is the next power of two. -/
theorem roundedTo_le_two_pow (f : Format) (m : Nat) (e : Int) (accuracy : Accuracy) :
    roundedTo f m e accuracy ≤ 2 ^ f.mantissaBits := by
  have htarget := targetExponent_eq f (totalExponent m e)
  have hshort : m / 2 ^ shiftTo f m e < 2 ^ f.mantissaBits := div_lt_two_pow (by
    rw [shiftTo, htarget, totalExponent]
    omega)
  exact (roundedTo_le f m e accuracy).trans hshort

/-- A significand that rounding has carried over is cut once more, and loses nothing. -/
theorem fits_carry {r : Nat} {e : Int} (hpos : 0 < r) (hlarge : r ≤ 2 ^ f.mantissaBits)
    (hleast : f.minExponent ≤ e)
    (hfull : 2 ^ f.mantissaBitsWithoutImplicit ≤ r ∨ e = f.minExponent) :
    Fits f (r / 2 ^ shiftTo f r e) (e + shiftTo f r e) ∧
      r / 2 ^ shiftTo f r e * 2 ^ shiftTo f r e = r := by
  have hbits := mantissaBits_eq f
  rcases Nat.lt_or_eq_of_le hlarge with hshort | hcarry
  · have hlog : r.log2 < f.mantissaBits := log2_lt_of_lt (by omega) hshort
    have hshift : shiftTo f r e = 0 := by
      rw [shiftTo, targetExponent_eq, totalExponent]
      omega
    rw [hshift, Nat.pow_zero, Nat.div_one, Int.natCast_zero, Int.add_zero]
    exact ⟨⟨hpos, hshort, hleast, hfull⟩, Nat.mul_one r⟩
  · have hlog : r.log2 = f.mantissaBits := by rw [hcarry, Nat.log2_two_pow]
    have hshift : shiftTo f r e = 1 := by
      rw [shiftTo, targetExponent_eq, totalExponent]
      omega
    have hdouble : r = 2 ^ f.mantissaBitsWithoutImplicit * 2 ^ 1 := by
      rw [hcarry, hbits, Nat.pow_succ, Nat.pow_one]
    have hhalf : r / 2 ^ 1 = 2 ^ f.mantissaBitsWithoutImplicit := by
      rw [hdouble, Nat.mul_div_cancel _ (by decide)]
    rw [hshift, hhalf]
    refine ⟨⟨Nat.two_pow_pos _, ?_, by omega, Or.inl le_rfl⟩, hdouble.symm⟩
    exact Nat.pow_lt_pow_right (by decide) (by omega)

/-- What becomes of a number that is rounded by moving it to the right. -/
theorem roundWithAccuracy_cases (s : Sign) (accuracy : Accuracy)
    (hright : e ≤ f.targetExponent (totalExponent m e)) :
    (roundWithAccuracy f s m e accuracy = .zero s ∧ (0 < m → totalExponent m e ≤ f.minExponent)) ∨
      ∃ m' e', ∃ h : Fits f m' e', roundWithAccuracy f s m e accuracy = .finite s m' e' h.pos ∧
        totalExponent m' e' ≤ max (totalExponent m e) f.minExponent + 1 ∧
        (0 < m → totalExponent m e ≤ totalExponent m' e') := by
  have hbits := mantissaBits_eq f
  have htarget := targetExponent_eq f (totalExponent m e)
  have hplace : totalExponent m e = m.log2 + 1 + e := rfl
  have hexponent : e + shiftTo f m e = f.targetExponent (totalExponent m e) := by
    rw [shiftTo]
    omega
  have hround := roundWithAccuracy_eq_dite f s m e accuracy
  dsimp only at hround
  have hbelow := div_le_roundedTo f m e accuracy
  have habove := log2_roundedTo_le f m e accuracy
  have hshort := roundedTo_le_two_pow f m e accuracy
  have hlow (hm : 0 < m) := le_log2_roundedTo f e accuracy hm
  set shift := shiftTo f m e
  set r := roundedTo f m e accuracy
  -- Rounding may leave nothing. Otherwise it may carry into one bit more, which is cut off again.
  rcases Nat.eq_zero_or_pos r with hzero | hpos
  · left
    rw [dif_pos (by rw [hzero, Nat.zero_div])] at hround
    refine ⟨hround, fun hm ↦ ?_⟩
    by_contra hlarge
    have hkept : 2 ^ 0 ≤ m / 2 ^ shift := two_pow_le_div hm (by omega)
    omega
  · right
    have hfull : 2 ^ f.mantissaBitsWithoutImplicit ≤ r ∨ e + shift = f.minExponent := by
      by_cases hleast : f.targetExponent (totalExponent m e) = f.minExponent
      · exact Or.inr (hexponent.trans hleast)
      · have hm : 0 < m := by
          have hlong : 0 < f.mantissaBitsWithoutImplicit := f.hm
          by_contra hzero
          obtain rfl : m = 0 := by omega
          rw [Nat.log2_zero] at hplace
          omega
        exact Or.inl ((two_pow_le_div hm (by omega)).trans hbelow)
    obtain ⟨hfits, hkept⟩ := fits_carry hpos hshort (by omega) hfull
    have hsame : totalExponent (r / 2 ^ shiftTo f r (e + shift))
        (e + shift + shiftTo f r (e + shift)) = r.log2 + 1 + (e + shift) := by
      have hlog := log2_mul_two_pow hfits.pos.ne' (shiftTo f r (e + shift))
      rw [hkept] at hlog
      rw [totalExponent]
      omega
    rw [dif_neg hfits.pos.ne'] at hround
    refine ⟨_, _, hfits, hround, ?_, fun hm ↦ ?_⟩
    · rw [hsame]
      omega
    · rw [hsame]
      have hlog := hlow hm
      omega

/-- A significand that is long enough is rounded without lowering its exponent. -/
theorem roundWithAccuracy_exact (s : Sign)
    (hright : e ≤ f.targetExponent (totalExponent m e)) :
    roundWithAccuracy f s m e .exact = .round f s m e := by
  have hkept : (e - f.targetExponent (totalExponent m e)).toNat = 0 := by omega
  unfold UnpackedFloat.round decreaseExponent
  simp only [hkept, Nat.shiftLeft_zero, Int.natCast_zero, Int.sub_zero]

/-! ### Words -/

theorem minExponent_eq (f : Format) :
    f.minExponent = 1 - f.exponentBias - f.mantissaBitsWithoutImplicit := by
  have hpower : 1 ≤ 2 ^ (f.exponentBits - 1) := Nat.one_le_two_pow
  have hbits := mantissaBits_eq f
  unfold Format.minExponent Format.exponentBias
  push_cast [hbits, Nat.cast_sub hpower]
  omega

/-- A significand that is read with its leading bit has the full length. -/
theorem toNat_leading_append {n : Nat} (x : BitVec n) : (1#1 ++ x).toNat = 2 ^ n + x.toNat := by
  rw [BitVec.toNat_append, ← Nat.shiftLeft_add_eq_or_of_lt x.isLt]
  simp [Nat.shiftLeft_eq]

theorem toNat_last_exponent (f : Format) : (-1#f.exponentBits).toNat = 2 ^ f.exponentBits - 1 := by
  rw [BitVec.neg_one_eq_allOnes, BitVec.toNat_allOnes]

/-- The last exponent is not the least one. -/
theorem zero_ne_last_exponent (f : Format) : 0#f.exponentBits ≠ -1#f.exponentBits := fun heq ↦ by
  have hzero := congrArg BitVec.toNat heq
  have hbits : 1 < 2 ^ f.exponentBits := Nat.one_lt_two_pow f.he.ne'
  rw [toNat_last_exponent, BitVec.toNat_zero] at hzero
  omega

/-- A finite number that is read from a word is held by the format, and its exponent is not the
last one. -/
theorem fits_of_unpack {b : BitVec f.numBits} {s : Sign} {hm : 0 < m}
    (h : UnpackedFloat.unpack f b = .finite s m e hm) (hrange : 2 ≤ f.exponentBits) :
    Fits f m e ∧
      (e + f.exponentBias + f.mantissaBitsWithoutImplicit).toNat + 1 < 2 ^ f.exponentBits := by
  have hfour : 2 ^ 2 ≤ 2 ^ f.exponentBits := Nat.pow_le_pow_right (by decide) hrange
  have hbits := mantissaBits_eq f
  have hleast := minExponent_eq f
  have hlast := toNat_last_exponent f
  have hshort : (unpackMantissa b).toNat < 2 ^ f.mantissaBitsWithoutImplicit := BitVec.isLt _
  have hexponent : (unpackExponent b).toNat < 2 ^ f.exponentBits := BitVec.isLt _
  have hne (hne : unpackExponent b ≠ -1#f.exponentBits) :
      (unpackExponent b).toNat ≠ 2 ^ f.exponentBits - 1 := fun heq ↦
    hne (BitVec.eq_of_toNat_eq (heq.trans hlast.symm))
  have hdouble : 2 ^ f.mantissaBits = 2 * 2 ^ f.mantissaBitsWithoutImplicit := by
    rw [hbits, Nat.pow_succ, Nat.mul_comm]
  unfold UnpackedFloat.unpack at h
  simp only at h
  split_ifs at h with hmax hnan hmin hzero
  · have hmax' := hne hmax
    simp only [UnpackedFloat.finite.injEq, hmin, BitVec.toNat_zero] at h hmax'
    obtain ⟨-, rfl, rfl⟩ := h
    exact ⟨⟨hm, by omega, by omega, Or.inr (by omega)⟩, by omega⟩
  · have hmax' := hne hmax
    simp only [UnpackedFloat.finite.injEq, toNat_leading_append] at h
    obtain ⟨-, rfl, rfl⟩ := h
    have hpos : 0 < (unpackExponent b).toNat := by
      rw [Nat.pos_iff_ne_zero]
      exact fun hzero ↦ hmin (BitVec.eq_of_toNat_eq hzero)
    exact ⟨⟨hm, by omega, by omega, Or.inl (by omega)⟩, by omega⟩

/-- What is read with the least exponent has the significand that was written. -/
theorem unpack_least_of_ne (s : Sign) {m : BitVec f.mantissaBitsWithoutImplicit} (hm : m ≠ 0#_) :
    ∃ hm', UnpackedFloat.unpack f (packComponents f s 0#f.exponentBits m) =
      .finite s m.toNat f.minExponent hm' := by
  have hleast := minExponent_eq f
  have hpos : 0 < m.toNat :=
    Nat.pos_of_ne_zero fun hzero ↦ hm (BitVec.eq_of_toNat_eq hzero)
  have hmax := zero_ne_last_exponent f
  refine ⟨hpos, ?_⟩
  unfold UnpackedFloat.unpack
  simp only [unpackSign_packComponents, unpackExponent_packComponents,
    unpackMantissa_packComponents, Sign.ofBitVec_toBitVec, hmax, if_false, if_true, hm,
    dite_false, BitVec.toNat_zero]
  congr 1
  omega

/-- What is read with an exponent between the least and the last one has a leading bit. -/
theorem unpack_full (s : Sign) {e : BitVec f.exponentBits}
    (m : BitVec f.mantissaBitsWithoutImplicit) (hmin : e ≠ 0#_) (hmax : e ≠ -1#_) :
    ∃ hm', UnpackedFloat.unpack f (packComponents f s e m) =
      .finite s (2 ^ f.mantissaBitsWithoutImplicit + m.toNat)
        (e.toNat - (f.exponentBias + f.mantissaBitsWithoutImplicit)) hm' := by
  refine ⟨by positivity, ?_⟩
  unfold UnpackedFloat.unpack
  simp only [unpackSign_packComponents, unpackExponent_packComponents,
    unpackMantissa_packComponents, Sign.ofBitVec_toBitVec, hmin, hmax, if_false,
    toNat_leading_append]

/-- A word gives back what was packed into it, unless it is too large. -/
theorem unpack_pack_of_fits (h : Fits f m e) (s : Sign)
    (hlarge : (e + f.exponentBias + f.mantissaBitsWithoutImplicit).toNat + 1 < 2 ^ f.exponentBits) :
    UnpackedFloat.unpack f (UnpackedFloat.pack f (.finite s m e h.pos)) = .finite s m e h.pos := by
  have hbits := mantissaBits_eq f
  have hleast := minExponent_eq f
  have hshort := h.short
  have hexponent := h.least
  unfold UnpackedFloat.pack
  simp only
  rw [if_neg (by omega)]
  -- A long significand is stored without its first bit. A short one has the least exponent.
  split_ifs with hlog
  · have hm : 2 ^ f.mantissaBitsWithoutImplicit ≤ m := by
      rw [show f.mantissaBitsWithoutImplicit = m.log2 by omega]
      exact Nat.log2_self_le h.pos.ne'
    have hmantissa : 2 ^ f.mantissaBitsWithoutImplicit +
        (BitVec.ofNat f.mantissaBitsWithoutImplicit m).toNat = m := by
      rw [hbits, Nat.pow_succ] at hshort
      rw [BitVec.toNat_ofNat, Nat.mod_eq_sub_mod hm, Nat.mod_eq_of_lt (by omega)]
      omega
    set biased := (e + f.exponentBias + f.mantissaBitsWithoutImplicit).toNat with hbiased
    have hrange : (BitVec.ofNat f.exponentBits biased).toNat = biased := by
      rw [BitVec.toNat_ofNat, Nat.mod_eq_of_lt (by omega)]
    have hmin : BitVec.ofNat f.exponentBits biased ≠ 0#f.exponentBits := fun heq ↦ by
      rw [heq, BitVec.toNat_zero] at hrange
      omega
    have hmax : BitVec.ofNat f.exponentBits biased ≠ -1#f.exponentBits := fun heq ↦ by
      rw [heq, toNat_last_exponent] at hrange
      omega
    obtain ⟨hm', hunpack⟩ := unpack_full s (BitVec.ofNat _ m) hmin hmax
    simp only [hmantissa, hrange] at hunpack
    rw [hunpack]
    congr 1
    omega
  · have hm : m < 2 ^ f.mantissaBitsWithoutImplicit := by
      by_contra hm
      have hle := log2_lt_of_lt (by omega) hshort
      have hge := le_log2_of_le (Nat.le_of_not_lt hm)
      omega
    have he : e = f.minExponent := h.full.resolve_left (by omega)
    have hmantissa : (BitVec.ofNat f.mantissaBitsWithoutImplicit m).toNat = m := by
      rw [BitVec.toNat_ofNat, Nat.mod_eq_of_lt hm]
    have hne : BitVec.ofNat f.mantissaBitsWithoutImplicit m ≠ 0#_ := fun hzero ↦ by
      rw [hzero, BitVec.toNat_zero] at hmantissa
      exact h.pos.ne hmantissa
    obtain ⟨hm', hunpack⟩ := unpack_least_of_ne s hne
    simp only [hmantissa, ← he] at hunpack
    exact hunpack

/-! ### Infinities, zeros and what is no number -/

theorem unpack_packedInfinity (f : Format) (s : Sign) :
    UnpackedFloat.unpack f (packedInfinity f s) = .infinity s := by
  unfold UnpackedFloat.unpack packedInfinity
  simp

theorem unpack_packedZero (f : Format) (s : Sign) :
    UnpackedFloat.unpack f (packedZero f s) = .zero s := by
  unfold UnpackedFloat.unpack packedZero
  simp [f.he.ne']

/-- Only a word with the last exponent is read as no number. -/
theorem unpack_packComponents_ne_notANumber (s : Sign) {e : BitVec f.exponentBits}
    (m : BitVec f.mantissaBitsWithoutImplicit) (hmax : e ≠ -1#_) :
    UnpackedFloat.unpack f (packComponents f s e m) ≠ .notANumber := by
  unfold UnpackedFloat.unpack
  simp only [unpackExponent_packComponents, hmax, if_false]
  split_ifs <;> exact nofun

/-- What is packed as a number is read as a number. -/
theorem unpack_pack_ne_notANumber {x : UnpackedFloat} (h : x ≠ .notANumber) :
    UnpackedFloat.unpack f (UnpackedFloat.pack f x) ≠ .notANumber := by
  cases x with
  | notANumber => exact absurd rfl h
  | infinity s =>
    rw [UnpackedFloat.pack, unpack_packedInfinity]
    exact nofun
  | zero s =>
    rw [UnpackedFloat.pack, unpack_packedZero]
    exact nofun
  | finite s m e hm =>
    unfold UnpackedFloat.pack
    dsimp only
    split_ifs with hlarge
    · rw [unpack_packedInfinity]
      exact nofun
    · refine unpack_packComponents_ne_notANumber s _ fun heq ↦ ?_
      have hlast := congrArg BitVec.toNat heq
      rw [toNat_last_exponent, BitVec.toNat_ofNat, Nat.mod_eq_of_lt (by omega)] at hlast
      omega
    · exact unpack_packComponents_ne_notANumber s _ (zero_ne_last_exponent f)

/-- Rounding makes a number. -/
theorem round_ne_notANumber (f : Format) (s : Sign) (m : Nat) (e : Int) :
    UnpackedFloat.round f s m e ≠ .notANumber := by
  unfold UnpackedFloat.round
  simp only [roundWithAccuracy_eq_dite]
  split_ifs <;> exact nofun

end LayerCanvas.Binary
