import LayerCanvas.Proofs.Binary.Formats

/-!
Rounding a quotient does not carry it across one. A quotient is computed as a significand with a bit
for the half and a bit for the rest, and rounded twice by moving its exponent. If the dividend is at
least the divisor, the quotient keeps a full significand at an exponent that makes it at least one.
If it is smaller, the quotient stays below one by more than the rounding can add, since both were
rounded to the same number of bits before.
-/

set_option autoImplicit false
set_option relaxedAutoImplicit false

namespace LayerCanvas.Binary

open Float.Model (Format UnpackedFloat totalExponent)
open Float.Model.UnpackedFloat

/-! ### Shifting and rounding -/

theorem doubled_shift_le (em : ExtendedMantissa) (k : Nat) :
    doubled (em >>> k) * 2 ^ k ≤ doubled em := by
  induction k with
  | zero => exact (Nat.mul_one _).le
  | succ k ih =>
    -- The bit for the half is the last one that went.
    have hstep : doubled (em >>> k).shiftRightOne = (em >>> k).mantissa := by
      rcases Nat.mod_two_eq_zero_or_one (em >>> k).mantissa with hmod | hmod <;>
        simp only [doubled, ExtendedMantissa.shiftRightOne, hmod] <;> simp <;> omega
    have hhalf : (em >>> k).mantissa * 2 ≤ doubled (em >>> k) := by
      unfold doubled
      omega
    calc doubled (em >>> (k + 1)) * 2 ^ (k + 1)
        = (em >>> k).mantissa * 2 * 2 ^ k := by
          show doubled (em >>> k).shiftRightOne * 2 ^ (k + 1) = _
          rw [hstep]
          ring
      _ ≤ doubled (em >>> k) * 2 ^ k := Nat.mul_le_mul_right _ hhalf
      _ ≤ doubled em := ih

/-- The significand and the bit for the half of a quotient do not exceed it. -/
theorem doubled_quotient_le (n d : Nat) :
    doubled (.ofMantissaAndAccuracy (n / d) (accuracyOfFraction (n % d) d)) * d ≤ 2 * n := by
  have hdivision : 2 * n = 2 * (n / d) * d + 2 * (n % d) := by
    rw [Nat.mul_assoc, Nat.mul_comm (n / d), ← Nat.mul_add, Nat.div_add_mod]
  rw [hdivision]
  by_cases hexact : n % d = 0
  · simp [accuracyOfFraction, hexact, ExtendedMantissa.ofMantissaAndAccuracy, doubled]
  · rw [accuracyOfFraction, if_neg hexact]
    cases hhalf : compare (2 * (n % d)) d with
    | lt => simp [ExtendedMantissa.ofMantissaAndAccuracy, doubled]
    | eq =>
      have hrest : 2 * (n % d) = d := Nat.compare_eq_eq.mp hhalf
      simp only [ExtendedMantissa.ofMantissaAndAccuracy, doubled, Bool.toNat_true, Nat.add_mul]
      omega
    | gt =>
      have hrest : d < 2 * (n % d) := Nat.compare_eq_gt.mp hhalf
      simp only [ExtendedMantissa.ofMantissaAndAccuracy, doubled, Bool.toNat_true, Nat.add_mul]
      omega

theorem targetExponent_binary64 (e : Int) :
    Format.binary64.targetExponent e = max (e - 53) (-1074) :=
  rfl

/-- How far a significand is moved to the right on its way to an exponent of the format. -/
def shiftOf (m : Nat) (e : Int) : Nat :=
  (Format.binary64.targetExponent (totalExponent m e) - e).toNat

theorem roundWithAccuracy_eq (s : Sign) (m : Nat) (e : Int) (accuracy : Accuracy) :
    let r := (ExtendedMantissa.ofMantissaAndAccuracy m accuracy >>> shiftOf m e).roundedMantissa
    let e' := e + shiftOf m e
    roundWithAccuracy .binary64 s m e accuracy =
      if h : r / 2 ^ shiftOf r e' = 0 then .zero s
      else .finite s (r / 2 ^ shiftOf r e') (e' + shiftOf r e') (Nat.pos_of_ne_zero h) :=
  roundWithAccuracy_eq_dite .binary64 s m e accuracy

theorem shiftOf_eq (m : Nat) (e : Int) :
    (e + shiftOf m e : Int) = max e (max (m.log2 + e - 52) (-1074)) := by
  unfold shiftOf totalExponent
  rw [targetExponent_binary64]
  omega

/-- A full significand stays full when it is cut to its full length. -/
theorem div_pow_log2_bounds {m : Nat} (h : 52 ≤ m.log2) :
    2 ^ 52 ≤ m / 2 ^ (m.log2 - 52) ∧ m / 2 ^ (m.log2 - 52) < 2 ^ 53 := by
  have hm : 0 < m := by
    by_contra hzero
    obtain rfl : m = 0 := by omega
    rw [Nat.log2_zero] at h
    omega
  exact ⟨two_pow_le_div hm (by omega), div_lt_two_pow (by omega)⟩

/-- Rounding keeps a significand full, at an exponent that makes it at least one. -/
theorem round_full {m : Nat} {e : Int} (hm : 2 ^ 52 ≤ m) (he : -53 ≤ e)
    (hone : e = -53 → 2 ^ 53 ≤ m) (s : Sign) (accuracy : Accuracy) :
    ∃ m' e' hm', roundWithAccuracy .binary64 s m e accuracy = .finite s m' e' hm' ∧
      m'.log2 = 52 ∧ -52 ≤ e' := by
  have hlog : 52 ≤ m.log2 := le_log2_of_le hm
  have hshift : shiftOf m e = m.log2 - 52 := by
    have hexponent := shiftOf_eq m e
    omega
  set em := ExtendedMantissa.ofMantissaAndAccuracy m accuracy >>> shiftOf m e with hem
  have hmantissa : 2 ^ 52 ≤ em.mantissa := by
    rw [hem, mantissa_shift, mantissa_ofMantissaAndAccuracy, hshift]
    exact (div_pow_log2_bounds hlog).1
  have hrounded : 52 ≤ em.roundedMantissa.log2 :=
    le_log2_of_le (hmantissa.trans (le_roundedMantissa em))
  have hfirst : -52 ≤ e + shiftOf m e := by
    by_cases hedge : e = -53
    · have hlog' : 53 ≤ m.log2 := le_log2_of_le (hone hedge)
      omega
    · omega
  have hshift' : shiftOf em.roundedMantissa (e + shiftOf m e) = em.roundedMantissa.log2 - 52 := by
    have hexponent := shiftOf_eq em.roundedMantissa (e + shiftOf m e)
    omega
  obtain ⟨hlow, hhigh⟩ := div_pow_log2_bounds hrounded
  have hround := roundWithAccuracy_eq s m e accuracy
  simp only [← hem, hshift'] at hround
  rw [dif_neg (by omega)] at hround
  refine ⟨_, _, _, hround, ?_, by omega⟩
  exact Nat.le_antisymm (Nat.le_of_lt_succ (log2_lt_of_lt (by decide) hhigh)) (le_log2_of_le hlow)

/-- Rounding a quotient that stays below one by enough leaves it below one. -/
theorem round_below_one {n d k : Nat} (hk : 53 ≤ k) (hd : d < 2 ^ 53)
    (hgap : 2 * n + 2 ^ k ≤ 2 * d * 2 ^ k) (s : Sign) :
    roundWithAccuracy .binary64 s (n / d) (-k) (accuracyOfFraction (n % d) d) = .zero s ∨
      ∃ m e hm, roundWithAccuracy .binary64 s (n / d) (-k) (accuracyOfFraction (n % d) d) =
        .finite s m e hm ∧ e ≤ -53 := by
  have hpos : 0 < d := by
    by_contra hzero
    obtain rfl : d = 0 := by omega
    have hpow := Nat.two_pow_pos k
    omega
  have hquotient : n / d < 2 ^ k := by
    have hpow := Nat.two_pow_pos k
    rw [Nat.div_lt_iff_lt_mul hpos, Nat.mul_comm]
    rw [Nat.mul_assoc] at hgap
    omega
  have hlog : (n / d).log2 < k := log2_lt_of_lt (by omega) hquotient
  have hexponent := shiftOf_eq (n / d) (-k)
  set shift := shiftOf (n / d) (-k) with hshift
  set em := ExtendedMantissa.ofMantissaAndAccuracy (n / d) (accuracyOfFraction (n % d) d) >>> shift
    with hem
  -- The exponent after the first rounding, as a number of places behind the point.
  obtain ⟨places, hplaces⟩ : ∃ places : Nat, (-k + shift : Int) = -places ∧ 53 ≤ places ∧
      k = places + shift := ⟨k - shift, by omega, by omega, by omega⟩
  obtain ⟨hplaces, hlong, hsum⟩ := hplaces
  have hrounded : em.roundedMantissa < 2 ^ places := by
    by_contra hlarge
    have hcut : doubled em * 2 ^ shift * d ≤ 2 * n :=
      (Nat.mul_le_mul_right d (doubled_shift_le _ shift)).trans (doubled_quotient_le n d)
    have hdoubled : 2 * 2 ^ places ≤ doubled em + 1 :=
      (Nat.mul_le_mul_left 2 (Nat.le_of_not_lt hlarge)).trans (roundedMantissa_le em)
    have hscaled : 2 * 2 ^ places * (2 ^ shift * d) ≤ 2 * n + 2 ^ shift * d := by
      calc 2 * 2 ^ places * (2 ^ shift * d) ≤ (doubled em + 1) * (2 ^ shift * d) :=
            Nat.mul_le_mul_right _ hdoubled
        _ = doubled em * 2 ^ shift * d + 2 ^ shift * d := by ring
        _ ≤ 2 * n + 2 ^ shift * d := Nat.add_le_add_right hcut _
    have hgap' : 2 * n + 2 ^ places * 2 ^ shift ≤ 2 * 2 ^ places * (2 ^ shift * d) := by
      calc 2 * n + 2 ^ places * 2 ^ shift = 2 * n + 2 ^ k := by rw [hsum, Nat.pow_add]
        _ ≤ 2 * d * 2 ^ k := hgap
        _ = 2 * 2 ^ places * (2 ^ shift * d) := by
          rw [hsum, Nat.pow_add]
          ring
    have hshort : 2 ^ places * 2 ^ shift ≤ d * 2 ^ shift := by
      rw [Nat.mul_comm d]
      omega
    have hd' : d < 2 ^ places := hd.trans_le (Nat.pow_le_pow_right (by decide) hlong)
    exact absurd (Nat.le_of_mul_le_mul_right hshort (Nat.two_pow_pos shift)) (Nat.not_le.mpr hd')
  have hlog' : em.roundedMantissa.log2 < places := log2_lt_of_lt (by omega) hrounded
  have hexponent' := shiftOf_eq em.roundedMantissa (-places)
  have hround := roundWithAccuracy_eq s (n / d) (-k) (accuracyOfFraction (n % d) d)
  simp only [← hshift, ← hem, hplaces] at hround
  split_ifs at hround with hzero
  · exact Or.inl hround
  · exact Or.inr ⟨_, _, _, hround, by omega⟩

/-! ### Quotients -/

/-- A significand with its exponent, as they are read from a word. -/
structure Canonical (m : Nat) (e : Int) : Prop where
  pos : 0 < m
  short : m < 2 ^ 53
  least : -1074 ≤ e
  full : 2 ^ 52 ≤ m ∨ e = -1074

theorem Canonical.fits {m : Nat} {e : Int} (h : Canonical m e) : Fits .binary64 m e :=
  ⟨h.pos, h.short, h.least, h.full⟩

theorem Fits.canonical {m : Nat} {e : Int} (h : Fits .binary64 m e) : Canonical m e :=
  ⟨h.pos, h.short, h.least, h.full⟩

theorem Canonical.log2_le {m : Nat} {e : Int} (h : Canonical m e) : m.log2 ≤ 52 :=
  Nat.le_of_lt_succ (log2_lt_of_lt (by decide) h.short)

theorem Canonical.log2_eq {m : Nat} {e : Int} (h : Canonical m e) (he : -1074 < e) : m.log2 = 52 :=
  Nat.le_antisymm h.log2_le (le_log2_of_le (h.full.resolve_right he.ne'))

variable {m₁ m₂ : Nat} {e₁ e₂ : Int}

/-- A quotient of a dividend that is not smaller than the divisor is rounded to at least one. -/
theorem quotient_full (h₁ : Canonical m₁ e₁) (h₂ : Canonical m₂ e₂)
    (hle : e₂ < e₁ ∨ e₁ = e₂ ∧ m₂ ≤ m₁) (s : Sign) :
    ∃ m e hm, m.log2 = 52 ∧ -52 ≤ e ∧
      (let core := divCore .binary64 m₁ e₁ m₂ e₂
      roundWithAccuracy .binary64 s core.1 core.2.1 core.2.2) = .finite s m e hm := by
  have hlog₁ := h₁.log2_le
  have hlog₂ := h₂.log2_le
  -- The exponents of the leading bits are in the order of the numbers.
  have horder : e₂ < e₁ ∧ m₁.log2 = 52 ∨ e₁ = e₂ ∧ m₂.log2 ≤ m₁.log2 ∧ m₂ ≤ m₁ := by
    rcases hle with hlt | ⟨heq, hm⟩
    · exact Or.inl ⟨hlt, h₁.log2_eq (h₂.least.trans_lt hlt)⟩
    · exact Or.inr ⟨heq, le_log2_of_le ((Nat.log2_self_le h₂.pos.ne').trans hm), hm⟩
  set lead := (m₁.log2 : Int) - m₂.log2 + e₁ - e₂ with hlead
  have hexponent : min (e₁ - e₂)
      (Format.binary64.targetExponent (totalExponent m₁ e₁ - totalExponent m₂ e₂)) = lead - 53 := by
    rw [targetExponent_binary64, totalExponent, totalExponent]
    omega
  have hshift : (e₁ - e₂ - (lead - 53)).toNat = 53 + m₂.log2 - m₁.log2 := by omega
  have hfull : 2 ^ 52 ≤ m₁ * 2 ^ (53 + m₂.log2 - m₁.log2) / m₂ := by
    rw [Nat.le_div_iff_mul_le h₂.pos]
    calc 2 ^ 52 * m₂ ≤ 2 ^ 52 * 2 ^ (m₂.log2 + 1) :=
          Nat.mul_le_mul_left _ (Nat.le_of_lt Nat.lt_log2_self)
      _ = 2 ^ m₁.log2 * 2 ^ (53 + m₂.log2 - m₁.log2) := by
        rw [← Nat.pow_add, ← Nat.pow_add]
        congr 1
        omega
      _ ≤ m₁ * 2 ^ (53 + m₂.log2 - m₁.log2) :=
        Nat.mul_le_mul_right _ (Nat.log2_self_le h₁.pos.ne')
  have hone : lead - 53 = -53 → 2 ^ 53 ≤ m₁ * 2 ^ (53 + m₂.log2 - m₁.log2) / m₂ := fun hlead' ↦ by
    rcases horder with ⟨hlt, hlog⟩ | ⟨heq, hlog, hm⟩
    · omega
    · rw [Nat.le_div_iff_mul_le h₂.pos, show 53 + m₂.log2 - m₁.log2 = 53 by omega, Nat.mul_comm]
      exact Nat.mul_le_mul_right _ hm
  obtain ⟨m, e, hm, hround, hlog, he⟩ := round_full hfull (by omega) hone s
    (accuracyOfFraction (m₁ * 2 ^ (53 + m₂.log2 - m₁.log2) % m₂) m₂)
  refine ⟨m, e, hm, hlog, he, ?_⟩
  unfold divCore
  simp only [hexponent, hshift, Nat.shiftLeft_eq]
  exact hround

/-- A quotient of a dividend that is smaller than the divisor is rounded to less than one. -/
theorem quotient_below_one (h₁ : Canonical m₁ e₁) (h₂ : Canonical m₂ e₂)
    (hlt : e₁ < e₂ ∨ e₁ = e₂ ∧ m₁ < m₂) (s : Sign) :
    let core := divCore .binary64 m₁ e₁ m₂ e₂
    roundWithAccuracy .binary64 s core.1 core.2.1 core.2.2 = .zero s ∨
      ∃ m e hm, roundWithAccuracy .binary64 s core.1 core.2.1 core.2.2 = .finite s m e hm ∧
        e ≤ -53 := by
  have horder : m₁.log2 + e₁ ≤ m₂.log2 + e₂ := by
    rcases hlt with hlt | ⟨heq, hm⟩
    · have hlog₁ := h₁.log2_le
      have hlog₂ := h₂.log2_eq (h₁.least.trans_lt hlt)
      omega
    · have hlog : m₁.log2 ≤ m₂.log2 := le_log2_of_le ((Nat.log2_self_le h₁.pos.ne').trans hm.le)
      omega
  obtain ⟨k, hexponent, hk⟩ : ∃ k : Nat, min (e₁ - e₂)
      (Format.binary64.targetExponent (totalExponent m₁ e₁ - totalExponent m₂ e₂)) = -k ∧
        53 ≤ k := by
    rw [targetExponent_binary64, totalExponent, totalExponent]
    exact ⟨(-min (e₁ - e₂) (max ((m₁.log2 + 1 + e₁ - (m₂.log2 + 1 + e₂)) - 53) (-1074))).toNat,
      by omega, by omega⟩
  -- The dividend falls short by half a unit in the last place of the divisor at least.
  have hgap : 2 * (m₁ * 2 ^ (e₁ - e₂ + k).toNat) + 2 ^ k ≤ 2 * m₂ * 2 ^ k := by
    rcases hlt with hlt | ⟨rfl, hm⟩
    · obtain ⟨j, hj⟩ : ∃ j : Nat, e₂ = e₁ + (j + 1) := ⟨(e₂ - e₁ - 1).toNat, by omega⟩
      have hfull : m₁ + 1 ≤ 2 * m₂ := by
        have hm₁ := h₁.short
        have hm₂ : 2 ^ 52 ≤ m₂ := h₂.full.resolve_right (h₁.least.trans_lt hlt).ne'
        omega
      have hbase : m₁ + 2 ^ j ≤ 2 * m₂ * 2 ^ j := by
        calc m₁ + 2 ^ j ≤ m₁ * 2 ^ j + 1 * 2 ^ j := by
              rw [Nat.one_mul]
              exact Nat.add_le_add_right (Nat.le_mul_of_pos_right _ (Nat.two_pow_pos j)) _
          _ = (m₁ + 1) * 2 ^ j := (Nat.add_mul _ _ _).symm
          _ ≤ 2 * m₂ * 2 ^ j := Nat.mul_le_mul_right _ hfull
      set a := (e₁ - e₂ + k).toNat with ha
      have hk' : k = a + (j + 1) := by omega
      calc 2 * (m₁ * 2 ^ a) + 2 ^ k = (m₁ + 2 ^ j) * (2 * 2 ^ a) := by
            rw [hk']
            ring
        _ ≤ 2 * m₂ * 2 ^ j * (2 * 2 ^ a) := Nat.mul_le_mul_right _ hbase
        _ = 2 * m₂ * 2 ^ k := by
          rw [hk']
          ring
    · rw [show (e₁ - e₁ + k : Int).toNat = k by omega]
      calc 2 * (m₁ * 2 ^ k) + 2 ^ k = (2 * m₁ + 1) * 2 ^ k := by ring
        _ ≤ 2 * m₂ * 2 ^ k := Nat.mul_le_mul_right _ (by omega)
  have hround := round_below_one hk h₂.short hgap s
  unfold divCore
  simp only [hexponent, sub_neg_eq_add, Nat.shiftLeft_eq]
  exact hround

end LayerCanvas.Binary
