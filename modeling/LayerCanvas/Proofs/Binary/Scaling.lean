import LayerCanvas.Decimal.Value
import LayerCanvas.Proofs.Binary.Difference
import LayerCanvas.Proofs.Binary.Formats

/-!
Natural numbers and powers of ten as machine numbers, their products and their quotients. Each is
the exact number, as a word holds it, so a product that is not infinite bounds those of smaller
numbers. Of a quotient the place of the leading bit is known up to one, which is enough where a
number is far from the ends of the range.
-/

set_option autoImplicit false
set_option relaxedAutoImplicit false

namespace LayerCanvas.Binary

open Float.Model (Format UnpackedFloat totalExponent)
open Float.Model.UnpackedFloat

variable {x y : Float} {m : Nat} {e : Int}

/-! ### Positive numbers -/

theorem units_mul_two_pow (m k : Nat) (he : -1074 ≤ e - k) :
    units (m * 2 ^ k) (e - k) = units m e := by
  rw [units, units, Nat.mul_assoc, ← Nat.pow_add]
  congr 2
  omega

theorem units_mul (m₁ m₂ : Nat) {e₁ e₂ : Int} (h₁ : -1074 ≤ e₁) (h₂ : -1074 ≤ e₂)
    (h : -1074 ≤ e₁ + e₂) :
    units (m₁ * m₂) (e₁ + e₂) * units 1 0 = units m₁ e₁ * units m₂ e₂ := by
  have hpower : 2 ^ (e₁ + e₂ + 1074).toNat * 2 ^ (0 + 1074 : Int).toNat =
      2 ^ (e₁ + 1074).toNat * 2 ^ (e₂ + 1074).toNat := by
    rw [← Nat.pow_add, ← Nat.pow_add]
    congr 1
    omega
  unfold units
  rw [Nat.one_mul, Nat.mul_assoc, hpower]
  ring

/-- A positive number of so many units. -/
def HasUnits (x : Float) (u : Nat) : Prop :=
  ∃ m e, ∃ h : Canonical m e, x.toModel.unpack = .finite .positive m e h.pos ∧ units m e = u

theorem HasUnits.isFinite {u : Nat} (h : HasUnits x u) : Scalar.isFinite x = true := by
  obtain ⟨m, e, hcanonical, hx, -⟩ := h
  rw [isFinite_eq, hx]
  rfl

/-- A number that is made of a significand is finite if it is not too large. -/
theorem hasUnits_of_pack (h : Canonical m e) (hx : x.toModel = .pack (.finite .positive m e h.pos))
    (hlimit : units m e < limit) : HasUnits x (units m e) := by
  refine ⟨m, e, h, ?_, rfl⟩
  rw [hx, unpack_pack_canonical h, if_pos]
  by_contra hlarge
  exact absurd (limit_le_units h (by omega)) (Nat.not_le.mpr hlimit)

theorem units_lt_limit_of_isFinite (h : Canonical m e)
    (hx : x.toModel = .pack (.finite .positive m e h.pos)) (hfinite : Scalar.isFinite x = true) :
    units m e < limit := by
  rw [isFinite_eq, hx, unpack_pack_canonical h] at hfinite
  split_ifs at hfinite with he
  · exact units_lt_limit h he
  · cases hfinite

/-- The negative of a finite number. -/
theorem unpack_neg (h : Scalar.isFinite x = true) :
    (-x).toModel.unpack = x.toModel.unpack.neg := by
  show (Float.Model.pack x.toModel.unpack.neg).unpack = _
  have hnumber := isNumber_of_isFinite h
  generalize x.toModel.unpack = u at hnumber ⊢
  cases hnumber with
  | infinity s => exact unpack_pack_infinity (-s)
  | zero s => exact unpack_pack_zero (-s)
  | finite s h he => exact (unpack_pack_canonical h (-s)).trans (if_pos he)

theorem isFinite_neg (h : Scalar.isFinite x = true) : Scalar.isFinite (-x) = true := by
  rw [isFinite_eq] at h ⊢
  rw [unpack_neg (by rwa [isFinite_eq])]
  cases hx : x.toModel.unpack <;> simp_all [UnpackedFloat.isFinite, UnpackedFloat.neg]

/-! ### Natural numbers -/

/-- The natural numbers up to the largest double. -/
def largest : Nat := (2 ^ 53 - 1) * 2 ^ 971

theorem le_largest {n : Nat} (h : n < 2 ^ 64) : n ≤ largest :=
  h.le.trans (by decide +kernel)

theorem units_largest : units largest 0 = units (2 ^ 53 - 1) 971 :=
  units_mul_two_pow (2 ^ 53 - 1) 971 (e := 971) (by decide)

theorem rounded_lt_limit {n : Nat} (h : n ≤ largest) : rounded (units n 0) < limit := by
  have hcanonical : Canonical (2 ^ 53 - 1) 971 :=
    ⟨by decide, by decide, by decide, Or.inl (by decide)⟩
  calc rounded (units n 0) ≤ rounded (units largest 0) :=
        rounded_mono (Nat.mul_le_mul_right _ h)
    _ = units (2 ^ 53 - 1) 971 := by rw [units_largest, rounded_units hcanonical]
    _ < limit := units_lt_limit hcanonical le_rfl

theorem one_units_pos : 0 < units 1 0 := units_pos Nat.one_pos

theorem canonical_one : Canonical (2 ^ 52) (-52) := ⟨by decide, by decide, by decide, Or.inl le_rfl⟩

theorem units_one : units (2 ^ 52) (-52) = units 1 0 := by
  have h := units_mul_two_pow 1 52 (e := 0) (by decide)
  rwa [Nat.one_mul] at h

theorem one_le_rounded {n : Nat} (h : 0 < n) : units 1 0 ≤ rounded (units n 0) := by
  rw [← units_one, ← rounded_units canonical_one, units_one]
  exact rounded_mono (Nat.mul_le_mul_right _ h)

/-- Numbers from one on have no bits far behind the point. -/
theorem exponent_of_one_le (h : Canonical m e) (hone : units 1 0 ≤ units m e) : -52 ≤ e := by
  by_contra hsmall
  rw [← units_one] at hone
  exact absurd hone (Nat.not_le.mpr (units_lt_of_lt h canonical_one (by omega)))

theorem right_of_long {n : Nat} (h : 52 ≤ n.log2) :
    e ≤ Format.binary64.targetExponent (totalExponent n e) := by
  rw [targetExponent_binary64, totalExponent]
  omega

/-- A product of numbers from one on is the exact product, as a word holds it. -/
theorem exists_pack_mul {u v : Nat} (hx : HasUnits x u) (hy : HasUnits y v) (hu : units 1 0 ≤ u)
    (hv : units 1 0 ≤ v) :
    ∃ w, w * units 1 0 = u * v ∧ ∃ m e, ∃ h : Canonical m e,
      (x * y).toModel = .pack (.finite .positive m e h.pos) ∧ units m e = rounded w := by
  obtain ⟨m₁, e₁, h₁, hx, rfl⟩ := hx
  obtain ⟨m₂, e₂, h₂, hy, rfl⟩ := hy
  have he₁ := exponent_of_one_le h₁ hu
  have he₂ := exponent_of_one_le h₂ hv
  have hlong : 52 ≤ (m₁ * m₂).log2 :=
    le_log2_of_le ((h₁.full.resolve_right (by omega)).trans (Nat.le_mul_of_pos_right m₁ h₂.pos))
  have hmul : (x * y).toModel =
      .pack (roundWithAccuracy .binary64 .positive (m₁ * m₂) (e₁ + e₂) .exact) := by
    show Float.Model.pack (.mul .binary64 x.toModel.unpack y.toModel.unpack) = _
    rw [hx, hy]
    rfl
  obtain ⟨m, e, hm, hround, hcanonical, hunits⟩ := round_units .positive
    (Nat.mul_pos h₁.pos h₂.pos) (show -1074 ≤ e₁ + e₂ by omega)
  rw [roundWithAccuracy_exact _ (right_of_long hlong), hround] at hmul
  exact ⟨_, units_mul m₁ m₂ h₁.least h₂.least (by omega), m, e, hcanonical, hmul, hunits⟩

/-- A machine number that stands for a natural number. -/
abbrev Holds (x : Float) (n : Nat) : Prop := HasUnits x (rounded (units n 0))

theorem holds_of_pack {n : Nat} (h : Canonical m e)
    (hx : x.toModel = .pack (.finite .positive m e h.pos))
    (hunits : units m e = rounded (units n 0)) (hn : n ≤ largest) : Holds x n := by
  have hfinite := hasUnits_of_pack h hx (hunits ▸ rounded_lt_limit hn)
  rwa [hunits] at hfinite

theorem holds_word {n : Nat} (hn : 0 < n) (hlt : n < 2 ^ 64) : Holds n.toUInt64.toFloat n := by
  obtain ⟨m, e, hm, hround, hcanonical, hunits⟩ :=
    round_units .positive hn (show -1074 ≤ (0 : Int) by decide)
  refine holds_of_pack hcanonical ?_ hunits ?_
  · show Float.Model.pack (.normalize .binary64 (n.toUInt64.toNat : Int) 0 .positive) = _
    have hcompare : compare (n : Int) 0 = .gt := Int.compare_eq_gt.mpr (by omega)
    rw [UInt64.toNat_ofNat', Nat.mod_eq_of_lt hlt, ← hround, UnpackedFloat.normalize, hcompare]
    rfl
  · exact le_largest hlt

/-- A number with a power of ten, as it is read in one rounding. -/
theorem holds_ofScientific {n k : Nat} (hn : 0 < n) (hk : k ≤ 2048)
    (hlarge : n * 10 ^ k ≤ largest) : Holds (.ofModel (.ofScientific n k)) (n * 10 ^ k) := by
  have hlong : 52 ≤ (n * 2 ^ 53 * 10 ^ k).log2 := le_log2_of_le <|
    calc 2 ^ 52 ≤ 1 * 2 ^ 53 * 1 := by decide
      _ ≤ n * 2 ^ 53 * 10 ^ k :=
        Nat.mul_le_mul (Nat.mul_le_mul_right _ hn) (Nat.pow_pos (by decide))
  have hunits : units (n * 2 ^ 53 * 10 ^ k) (-53) = units (n * 10 ^ k) 0 := by
    rw [Nat.mul_right_comm]
    exact units_mul_two_pow (n * 10 ^ k) 53 (e := 0) (by decide)
  have hpos : 0 < n * 2 ^ 53 * 10 ^ k := by positivity
  obtain ⟨m, e, hm, hround, hcanonical, hsame⟩ :=
    round_units .positive hpos (show -1074 ≤ (-53 : Int) by decide)
  rw [hunits] at hsame
  refine holds_of_pack hcanonical ?_ hsame hlarge
  show Float.Model.pack (.ofScientific .binary64 n k) = _
  unfold UnpackedFloat.ofScientific
  have hsmall : ¬ (k : Int) > 2 ^ 11 := by omega
  have hlow : ¬ (k : Int) < -(2 ^ 11 + (n.log2 : Int)) := by omega
  rw [dif_neg hn.ne', if_neg hsmall, if_neg hlow, if_pos (Int.natCast_nonneg k)]
  refine congrArg Float.Model.pack ?_
  show roundWithAccuracy .binary64 .positive (n <<< 53 * 10 ^ k) (-53) .exact = _
  rw [Nat.shiftLeft_eq, roundWithAccuracy_exact _ (right_of_long hlong), hround]

theorem hasUnits_one : HasUnits Float.exactlyRepresentablePowersOfTen[0] (units 1 0) :=
  ⟨2 ^ 52, -52, canonical_one, unpack_one, units_one⟩

theorem holds_ofNat {n : Nat} (hn : 0 < n) (hlt : n < 2 ^ 64) : Holds (Float.ofNat n) n := by
  have hlarge : n * 10 ^ 0 ≤ largest := by
    rw [Nat.pow_zero, Nat.mul_one]
    exact le_largest hlt
  show Holds (Float.ofScientific n false 0) n
  unfold Float.ofScientific
  split_ifs with hshort htrue htrue
  · cases htrue
  · -- A short number is exact, and multiplied by one.
    obtain ⟨w, hw, m, e, hcanonical, hpack, hunits⟩ :=
      exists_pack_mul (holds_word hn hlt) hasUnits_one (one_le_rounded hn) le_rfl
    have hsame : w = rounded (units n 0) := Nat.eq_of_mul_eq_mul_right one_units_pos hw
    refine holds_of_pack hcanonical hpack ?_ (le_largest hlt)
    obtain ⟨m', e', hcanonical', -, hunits'⟩ := holds_word hn hlt
    rw [hunits, hsame, ← hunits', rounded_units hcanonical']
  · cases htrue
  · have hslow := holds_ofScientific hn (Nat.zero_le 2048) hlarge
    rwa [Nat.pow_zero, Nat.mul_one] at hslow

theorem powerOfTen_short : ∀ k < 23,
    (Numeral.powerOfTen k).toModel = .pack (.round .binary64 .positive (10 ^ k) 0) := by
  decide +kernel

theorem holds_powerOfTen {k : Nat} (hk : k ≤ 308) : Holds (Numeral.powerOfTen k) (10 ^ k) := by
  have hlarge : 10 ^ k ≤ largest :=
    (Nat.pow_le_pow_right (by decide) hk).trans (by decide +kernel)
  by_cases hshort : k < 23
  · obtain ⟨m, e, hm, hround, hcanonical, hunits⟩ :=
      round_units .positive (show 0 < 10 ^ k by positivity) (show -1074 ≤ (0 : Int) by decide)
    have hpack := (powerOfTen_short k hshort).trans (by rw [hround])
    exact holds_of_pack hcanonical hpack hunits hlarge
  · have hslow := holds_ofScientific Nat.one_pos (show k ≤ 2048 by omega)
      ((Nat.one_mul (10 ^ k)).symm ▸ hlarge)
    rw [Nat.one_mul] at hslow
    show Holds (Float.ofScientific 1 false k) (10 ^ k)
    unfold Float.ofScientific
    rwa [dif_neg (by omega)]

/-! ### Products -/

/-- Of two numbers times a power of ten, the smaller one is finite if the larger one is. -/
theorem mul_powerOfTen {n n' k k' : Nat} (hn : 0 < n) (hle : n ≤ n') (hlt : n' < 2 ^ 64)
    (hk : k ≤ k') (hk' : k' ≤ 308)
    (hfinite : Scalar.isFinite (Float.ofNat n' * Numeral.powerOfTen k') = true) :
    ∃ u u', HasUnits (Float.ofNat n * Numeral.powerOfTen k) u ∧
      HasUnits (Float.ofNat n' * Numeral.powerOfTen k') u' ∧ units 1 0 ≤ u ∧ u ≤ u' := by
  have hone (j : Nat) : units 1 0 ≤ rounded (units (10 ^ j) 0) := one_le_rounded (by positivity)
  obtain ⟨w, hw, m, e, hcanonical, hpack, hunits⟩ := exists_pack_mul
    (holds_ofNat hn (by omega)) (holds_powerOfTen (hk.trans hk')) (one_le_rounded hn) (hone k)
  obtain ⟨w', hw', m', e', hcanonical', hpack', hunits'⟩ := exists_pack_mul
    (holds_ofNat (by omega) hlt) (holds_powerOfTen hk') (one_le_rounded (by omega)) (hone k')
  have hle' : units m e ≤ units m' e' := by
    rw [hunits, hunits']
    refine rounded_mono (Nat.le_of_mul_le_mul_right ?_ one_units_pos)
    rw [hw, hw']
    exact Nat.mul_le_mul (rounded_mono (Nat.mul_le_mul_right _ hle))
      (rounded_mono (Nat.mul_le_mul_right _ (Nat.pow_le_pow_right (by decide) hk)))
  have hlow : units 1 0 ≤ units m e := by
    rw [hunits, ← units_one, ← rounded_units canonical_one, units_one]
    refine rounded_mono (Nat.le_of_mul_le_mul_right ?_ one_units_pos)
    rw [hw]
    exact Nat.mul_le_mul (one_le_rounded hn) (hone k)
  have hlimit := units_lt_limit_of_isFinite hcanonical' hpack' hfinite
  exact ⟨_, _, hasUnits_of_pack hcanonical hpack (hle'.trans_lt hlimit),
    hasUnits_of_pack hcanonical' hpack' hlimit, hlow, hle'⟩

/-! ### Quotients -/

theorem totalExponent_eq (hm : 0 < m) (he : -1074 ≤ e) :
    totalExponent m e = (units m e).log2 - 1073 := by
  rw [units, log2_mul_two_pow hm.ne', totalExponent]
  omega

theorem totalExponent_mono {m' : Nat} {e' : Int} (h : Canonical m e) (h' : Canonical m' e')
    (hle : units m e ≤ units m' e') : totalExponent m e ≤ totalExponent m' e' := by
  rw [totalExponent_eq h.pos h.least, totalExponent_eq h'.pos h'.least]
  have hlog : (units m e).log2 ≤ (units m' e').log2 :=
    le_log2_of_le ((Nat.log2_self_le (units_pos h.pos).ne').trans hle)
  omega

/-- The place of the leading bit of a natural number is kept, or is the next one. -/
theorem Holds.place {n : Nat} (h : Holds x n) (hn : 0 < n) :
    ∃ m e, ∃ h : Canonical m e, x.toModel.unpack = .finite .positive m e h.pos ∧
      (n.log2 : Int) + 1 ≤ totalExponent m e ∧ totalExponent m e ≤ n.log2 + 2 := by
  obtain ⟨m, e, hcanonical, hx, hunits⟩ := h
  have hpower (k : Nat) : Canonical (2 ^ 52) (k - 52) ∧
      units (2 ^ k) 0 = units (2 ^ 52) (k - 52) ∧ totalExponent (2 ^ 52) (k - 52) = k + 1 := by
    refine ⟨⟨by decide, by decide, by omega, Or.inl le_rfl⟩, ?_, ?_⟩
    · rw [units, units, ← Nat.pow_add, ← Nat.pow_add]
      congr 1
      omega
    · rw [totalExponent, Nat.log2_two_pow]
      omega
  refine ⟨m, e, hcanonical, hx, ?_, ?_⟩
  · obtain ⟨hlow, hsame, htotal⟩ := hpower n.log2
    rw [← htotal]
    refine totalExponent_mono hlow hcanonical ?_
    rw [hunits, ← rounded_units hlow, ← hsame]
    exact rounded_mono (Nat.mul_le_mul_right _ (Nat.log2_self_le hn.ne'))
  · obtain ⟨hhigh, hsame, htotal⟩ := hpower (n.log2 + 1)
    have hle : totalExponent m e ≤ totalExponent (2 ^ 52) ((n.log2 + 1 : Nat) - 52) := by
      refine totalExponent_mono hcanonical hhigh ?_
      rw [hunits, ← rounded_units hhigh, ← hsame]
      exact rounded_mono (Nat.mul_le_mul_right _ Nat.lt_log2_self.le)
    rw [htotal] at hle
    omega

theorem log2_div_add_log2_le {n d : Nat} (hd : 0 < d) (h : 0 < n / d) :
    (n / d).log2 + d.log2 ≤ n.log2 := by
  refine le_log2_of_le ?_
  calc 2 ^ ((n / d).log2 + d.log2) = 2 ^ (n / d).log2 * 2 ^ d.log2 := Nat.pow_add _ _ _
    _ ≤ n / d * d := Nat.mul_le_mul (Nat.log2_self_le h.ne') (Nat.log2_self_le hd.ne')
    _ ≤ n := Nat.div_mul_le_self n d

theorem log2_le_log2_div_add {n d : Nat} (hn : 0 < n) (hd : 0 < d) :
    n.log2 ≤ (n / d).log2 + d.log2 + 1 := by
  have hquotient : n < 2 ^ ((n / d).log2 + 1) * d :=
    (Nat.div_lt_iff_lt_mul hd).mp Nat.lt_log2_self
  refine Nat.le_of_lt_succ ((Nat.log2_lt hn.ne').mpr (hquotient.trans_le ?_))
  calc 2 ^ ((n / d).log2 + 1) * d ≤ 2 ^ ((n / d).log2 + 1) * 2 ^ (d.log2 + 1) :=
        Nat.mul_le_mul_left _ Nat.lt_log2_self.le
    _ = 2 ^ ((n / d).log2 + d.log2 + 1 + 1) := by
      rw [← Nat.pow_add]
      congr 1
      omega

theorem log2_le_of_div_eq_zero {n d : Nat} (hn : 0 < n) (hd : 0 < d) (h : n / d = 0) :
    n.log2 ≤ d.log2 :=
  le_log2_of_le ((Nat.log2_self_le hn.ne').trans ((Nat.div_eq_zero_iff_lt hd).mp h).le)

/-- The place of the leading bit of a quotient. -/
theorem div_cases {s : Sign} {m₁ m₂ : Nat} {e₁ e₂ : Int} {h₁ : 0 < m₁} {h₂ : 0 < m₂}
    (hx : x.toModel.unpack = .finite s m₁ e₁ h₁)
    (hy : y.toModel.unpack = .finite .positive m₂ e₂ h₂) {t : Int}
    (ht : t = totalExponent m₁ e₁ - totalExponent m₂ e₂) :
    ((x / y).toModel = .pack (.zero (s / .positive)) ∧ t ≤ -1074) ∨
      ∃ m e, ∃ h : Canonical m e, (x / y).toModel = .pack (.finite (s / .positive) m e h.pos) ∧
        totalExponent m e ≤ max t (-1074) + 2 ∧ (-1074 < t → t ≤ totalExponent m e) := by
  have hdiv := div_finite hx hy
  have htarget := targetExponent_binary64 t
  have hleast : Format.binary64.minExponent = -1074 := rfl
  set target := min (e₁ - e₂) (Format.binary64.targetExponent t) with htarget'
  set k := (e₁ - e₂ - target).toNat with hk
  set q := m₁ * 2 ^ k / m₂ with hq
  have hcore : UnpackedFloat.divCore .binary64 m₁ e₁ m₂ e₂ =
      (q, target, accuracyOfFraction (m₁ * 2 ^ k % m₂) m₂) := by
    unfold divCore
    simp only [← ht, ← htarget', ← hk, Nat.shiftLeft_eq, ← hq]
  have hscaled : (m₁ * 2 ^ k).log2 = m₁.log2 + k := log2_mul_two_pow h₁.ne' k
  have hpos : 0 < m₁ * 2 ^ k := Nat.mul_pos h₁ (Nat.two_pow_pos k)
  have hplaces : t = (m₁.log2 : Int) + e₁ - m₂.log2 - e₂ := by
    rw [ht, totalExponent, totalExponent]
    omega
  -- The leading bit of the quotient, which is at most one place off. A quotient of zero has none.
  have hplace : totalExponent q target = q.log2 + 1 + target := rfl
  have hlow : t ≤ q.log2 + 1 + target := by
    have hle := log2_le_log2_div_add hpos h₂
    rw [hscaled, ← hq] at hle
    omega
  have hhigh : (0 < q ∧ q.log2 + target ≤ t) ∨ (q.log2 = 0 ∧ t ≤ target) := by
    rcases Nat.eq_zero_or_pos q with hzero | hq'
    · have hle := log2_le_of_div_eq_zero hpos h₂ (hq ▸ hzero)
      refine Or.inr ⟨by rw [hzero, Nat.log2_zero], ?_⟩
      omega
    · have hle := log2_div_add_log2_le h₂ (hq ▸ hq')
      rw [hscaled, ← hq] at hle
      exact Or.inl ⟨hq', by omega⟩
  have hright : target ≤ Format.binary64.targetExponent (totalExponent q target) := by
    rw [targetExponent_binary64]
    omega
  rw [hcore] at hdiv
  rcases roundWithAccuracy_cases (s / .positive) (accuracyOfFraction (m₁ * 2 ^ k % m₂) m₂) hright
    with ⟨hround, hsmall⟩ | ⟨m, e, hfits, hround, habove, hbelow⟩
  · refine Or.inl ⟨hdiv.trans (congrArg Float.Model.pack hround), ?_⟩
    rcases hhigh with ⟨hq', -⟩ | ⟨-, hless⟩
    · have hle := hsmall hq'
      omega
    · omega
  · refine Or.inr ⟨m, e, hfits.canonical, hdiv.trans (congrArg Float.Model.pack hround), ?_, ?_⟩
    · omega
    · intro hlarge
      rcases hhigh with ⟨hq', -⟩ | ⟨-, hless⟩
      · have hle := hbelow hq'
        omega
      · omega

/-! ### Numbers of a limited size -/

/-- Zero, or a positive number whose leading bit stands no higher than a place. -/
def AtMost (x : Float) (t : Int) : Prop :=
  x.toModel.unpack = .zero .positive ∨
    ∃ m e, ∃ h : Canonical m e, x.toModel.unpack = .finite .positive m e h.pos ∧
      totalExponent m e ≤ t

theorem AtMost.isFinite {t : Int} (h : AtMost x t) : Scalar.isFinite x = true := by
  rw [isFinite_eq]
  rcases h with h | ⟨m, e, hcanonical, h, -⟩ <;> rw [h] <;> rfl

theorem AtMost.mono {t t' : Int} (h : AtMost x t) (hle : t ≤ t') : AtMost x t' := by
  rcases h with h | ⟨m, e, hcanonical, h, ht⟩
  · exact Or.inl h
  · exact Or.inr ⟨m, e, hcanonical, h, ht.trans hle⟩

theorem atMost_ofNat {n : Nat} (hlt : n < 2 ^ 64) : AtMost (Float.ofNat n) 65 := by
  rcases Nat.eq_zero_or_pos n with rfl | hn
  · exact Or.inl rfl
  · obtain ⟨m, e, hcanonical, hx, -, hplace⟩ := (holds_ofNat hn hlt).place hn
    have hlog : n.log2 < 64 := log2_lt_of_lt (by decide) hlt
    exact Or.inr ⟨m, e, hcanonical, hx, by omega⟩

/-- Numbers below the last exponent are finite when they are packed. -/
theorem unpack_of_place {s : Sign} (h : Canonical m e)
    (hx : x.toModel = .pack (.finite s m e h.pos)) (ht : totalExponent m e ≤ 1024) :
    x.toModel.unpack = .finite s m e h.pos := by
  rw [hx, unpack_pack_canonical h, if_pos]
  by_contra hlarge
  rw [totalExponent, h.log2_eq (by omega)] at ht
  omega

/-- Dividing by a natural number does not make a number large. -/
theorem AtMost.div {t : Int} {n : Nat} (hx : AtMost x t) (hy : Holds y n) (hn : 0 < n)
    (hlow : 0 ≤ t) (hhigh : t ≤ 1023) : AtMost (x / y) (t + 1) := by
  obtain ⟨m₂, e₂, h₂, hy', hplace, -⟩ := hy.place hn
  rcases hx with hx | ⟨m₁, e₁, h₁, hx, ht⟩
  · left
    show (Float.Model.pack (.div .binary64 x.toModel.unpack y.toModel.unpack)).unpack = _
    rw [hx, hy']
    exact unpack_pack_zero .positive
  · rcases div_cases hx hy' rfl with ⟨hdiv, -⟩ | ⟨m, e, h, hdiv, hle, -⟩
    · left
      rw [hdiv]
      exact unpack_pack_zero .positive
    · exact Or.inr ⟨m, e, h, unpack_of_place h hdiv (by omega), by omega⟩

/-- The place of the leading bit of a quotient of natural numbers, if it is not too small. -/
theorem place_div {n n' : Nat} (hx : Holds x n) (hy : Holds y n') (hn : 0 < n) (hn' : 0 < n')
    (hhigh : n.log2 ≤ 1000) {j : Nat} (hj : j ≤ 1000) (hle : n' ≤ n * 2 ^ j) :
    ∃ m e, ∃ h : Canonical m e, (x / y).toModel.unpack = .finite .positive m e h.pos ∧
      -(j : Int) - 1 ≤ totalExponent m e := by
  obtain ⟨m₁, e₁, h₁, hx', hlow₁, hhigh₁⟩ := hx.place hn
  obtain ⟨m₂, e₂, h₂, hy', hlow₂, hhigh₂⟩ := hy.place hn'
  have hlog : n'.log2 ≤ n.log2 + j := by
    rw [← log2_mul_two_pow hn.ne']
    exact le_log2_of_le ((Nat.log2_self_le hn'.ne').trans hle)
  rcases div_cases hx' hy' rfl with ⟨-, hsmall⟩ | ⟨m, e, h, hdiv, habove, hbelow⟩
  · omega
  · exact ⟨m, e, h, unpack_of_place h hdiv (by omega), by omega⟩

end LayerCanvas.Binary
