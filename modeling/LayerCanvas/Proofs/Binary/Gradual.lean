import LayerCanvas.Proofs.Binary.Fraction
import LayerCanvas.Proofs.Binary.Limits
import LayerCanvas.Proofs.Progress

/-!
Products, quotients and narrowings of machine numbers keep the order. Each of them is the exact
result as a word holds it: the size of a product is the product of the sizes, the size of a quotient
their quotient, and a narrowing keeps the size. So machine numbers show the progress of a tween as
it should be.
-/

set_option autoImplicit false
set_option relaxedAutoImplicit false

namespace LayerCanvas

namespace Binary

open Float.Model (Format UnpackedFloat totalExponent)
open Float.Model.UnpackedFloat

variable {f g : Format} {x y : UnpackedFloat} {m m₁ m₂ : Nat} {e e₁ e₂ : Int}

/-! ### Sizes -/

/-- The size of a number, with its sign. -/
def sizeIn (f : Format) (x : UnpackedFloat) : ℚ := valueIn f x * 2 ^ f.minExponent

theorem quantity_one (m : Nat) (he : f.minExponent ≤ e) :
    quantity m 1 e = unitsIn f m e * 2 ^ f.minExponent := by
  have hexponent : e = (e - f.minExponent).toNat + f.minExponent := by omega
  rw [quantity, unitsIn, Nat.cast_one, div_one, Nat.cast_mul, Nat.cast_pow, Nat.cast_ofNat,
    mul_assoc, ← zpow_natCast, ← two_pow_add, ← hexponent]

theorem sizeIn_finite (h : Fits f m e) :
    sizeIn f (.finite .positive m e h.pos) = quantity m 1 e := by
  rw [quantity_one m h.least, sizeIn, valueIn, Sign.apply, Int.cast_natCast]

theorem sizeIn_zero (f : Format) (s : Sign) : sizeIn f (.zero s) = 0 := by
  rw [sizeIn, valueIn, Int.cast_zero, zero_mul]

theorem sizeIn_le_iff : sizeIn f x ≤ sizeIn f y ↔ valueIn f x ≤ valueIn f y := by
  rw [sizeIn, sizeIn, mul_le_mul_iff_left₀ (two_pow_pos _), Int.cast_le]

/-- The finite numbers that are not negative. -/
inductive Magnitude (f : Format) : UnpackedFloat → Prop
  | zero (s : Sign) : Magnitude f (.zero s)
  | finite {m : Nat} {e : Int} (h : Fits f m e) (he : e < endExponent f) :
    Magnitude f (.finite .positive m e h.pos)

theorem Magnitude.isFinite (h : Magnitude f x) : x.isFinite = true := by cases h <;> rfl

theorem sizeIn_nonneg (h : Magnitude f x) : 0 ≤ sizeIn f x := by
  cases h with
  | zero s => exact (sizeIn_zero f s).ge
  | finite h he =>
    rw [sizeIn_finite h]
    exact quantity_nonneg _ _ _

theorem valueIn_lt_limitIn (hf : 2 ≤ f.exponentBits) (h : Magnitude f x) :
    valueIn f x < limitIn f := by
  cases h with
  | zero s => exact Int.natCast_pos.mpr (limitIn_pos f)
  | finite h he => exact Int.ofNat_lt.mpr (unitsIn_lt_limitIn hf h he)

/-- A number that is not negative is finite, or it is the positive infinity. -/
theorem magnitude_cases (hx : IsNumberIn f x) (h : 0 ≤ valueIn f x) :
    Magnitude f x ∨ x = .infinity .positive := by
  have hlimit : (0 : Int) < limitIn f := mod_cast limitIn_pos f
  cases hx with
  | infinity s =>
    cases s with
    | positive => exact Or.inr rfl
    | negative =>
      rw [valueIn, Sign.apply] at h
      omega
  | zero s => exact Or.inl (.zero s)
  | @finite s m e hfits he =>
    cases s with
    | positive => exact Or.inl (.finite hfits he)
    | negative =>
      have hpos : (0 : Int) < unitsIn f m e := mod_cast unitsIn_pos f e hfits.pos
      rw [valueIn, Sign.apply] at h
      omega

/-! ### Products -/

/-- A product is not rounded by lowering its exponent. -/
theorem right_mul (h₁ : Fits f m₁ e₁) (h₂ : Fits f m₂ e₂) :
    e₁ + e₂ ≤ f.targetExponent (totalExponent (m₁ * m₂) (e₁ + e₂)) := by
  have hbits := mantissaBits_eq f
  have hleast := minExponent_eq f
  have hlong (h : 2 ^ f.mantissaBitsWithoutImplicit ≤ m₁ * m₂) :
      e₁ + e₂ ≤ f.targetExponent (totalExponent (m₁ * m₂) (e₁ + e₂)) := by
    have hlog := le_log2_of_le h
    rw [targetExponent_eq, totalExponent]
    omega
  rcases h₁.full with hfull | hleast₁
  · exact hlong (hfull.trans (Nat.le_mul_of_pos_right m₁ h₂.pos))
  · rcases h₂.full with hfull | hleast₂
    · exact hlong (hfull.trans (Nat.le_mul_of_pos_left m₂ h₁.pos))
    · -- Two numbers with the least exponent have a product below it.
      have hlong : 0 < f.mantissaBitsWithoutImplicit := f.hm
      have hlow : e₁ + e₂ ≤ f.minExponent := by omega
      exact hlow.trans (le_max_right _ _)

theorem packsAs_mul_finite (hf : 2 ≤ f.exponentBits) (h₁ : Fits f m₁ e₁) (h₂ : Fits f m₂ e₂) :
    PacksAs f (.mul f (.finite .positive m₁ e₁ h₁.pos) (.finite .positive m₂ e₂ h₂.pos))
      (quantity m₁ 1 e₁ * quantity m₂ 1 e₂) := by
  have hproduct : quantity m₁ 1 e₁ * quantity m₂ 1 e₂ = quantity (m₁ * m₂) 1 (e₁ + e₂) := by
    rw [quantity, quantity, quantity, two_pow_add, Nat.cast_mul]
    ring
  rw [hproduct]
  exact packsAs_whole hf (right_mul h₁ h₂)

/-- A product of finite numbers that are not negative is the exact product, as a word holds it. -/
theorem packsAs_mul (hf : 2 ≤ f.exponentBits) (hx : Magnitude f x) (hy : Magnitude f y) :
    PacksAs f (.mul f x y) (sizeIn f x * sizeIn f y) := by
  cases hx with
  | zero s =>
    rw [sizeIn_zero, zero_mul]
    cases hy <;> exact packsAs_zero f _
  | finite h he =>
    cases hy with
    | zero s =>
      rw [sizeIn_zero, mul_zero]
      exact packsAs_zero f _
    | finite h' he' =>
      rw [sizeIn_finite h, sizeIn_finite h']
      exact packsAs_mul_finite hf h h'

/-! ### Quotients -/

theorem packsAs_div_finite (hf : 2 ≤ f.exponentBits) (h₁ : Fits f m₁ e₁) (h₂ : Fits f m₂ e₂) :
    PacksAs f (.div f (.finite .positive m₁ e₁ h₁.pos) (.finite .positive m₂ e₂ h₂.pos))
      (quantity m₁ 1 e₁ / quantity m₂ 1 e₂) := by
  set t := totalExponent m₁ e₁ - totalExponent m₂ e₂ with ht
  set low := min (e₁ - e₂) (f.targetExponent t) with hlow
  set k := (e₁ - e₂ - low).toNat with hk
  have hdiv : UnpackedFloat.div f (.finite .positive m₁ e₁ h₁.pos)
      (.finite .positive m₂ e₂ h₂.pos) = roundWithAccuracy f .positive (m₁ * 2 ^ k / m₂) low
        (accuracyOfFraction (m₁ * 2 ^ k % m₂) m₂) := by
    unfold UnpackedFloat.div divCore
    simp only [← ht, ← hlow, ← hk, Nat.shiftLeft_eq]
    rfl
  -- The dividend is shifted far enough for the quotient to be rounded by moving it to the right.
  have hright : low ≤ f.targetExponent (totalExponent (m₁ * 2 ^ k / m₂) low) := by
    have hplace := log2_le_log2_div_add (Nat.mul_pos h₁.pos (Nat.two_pow_pos k)) h₂.pos
    rw [log2_mul_two_pow h₁.pos.ne'] at hplace
    rw [targetExponent_eq] at hlow
    rw [totalExponent, totalExponent] at ht
    rw [targetExponent_eq, totalExponent]
    omega
  have hquotient : quantity m₁ 1 e₁ / quantity m₂ 1 e₂ = quantity (m₁ * 2 ^ k) m₂ low := by
    have hpower : (2 : ℚ) ^ k * 2 ^ low = 2 ^ e₁ / 2 ^ e₂ := by
      rw [← zpow_natCast, ← two_pow_add, ← zpow_sub₀ (by norm_num)]
      congr 1
      omega
    calc quantity m₁ 1 e₁ / quantity m₂ 1 e₂ = m₁ / m₂ * (2 ^ e₁ / 2 ^ e₂) := by
          rw [quantity, quantity, Nat.cast_one]
          field_simp
      _ = m₁ / m₂ * (2 ^ k * 2 ^ low) := by rw [hpower]
      _ = quantity (m₁ * 2 ^ k) m₂ low := by
        rw [quantity, Nat.cast_mul, Nat.cast_pow, Nat.cast_ofNat]
        ring
  rw [hdiv, hquotient]
  exact packsAs_fraction hf h₂.pos rfl hright

/-- A quotient of a finite number that is not negative by a positive one is the exact quotient, as a
word holds it. -/
theorem packsAs_div (hf : 2 ≤ f.exponentBits) (hx : Magnitude f x) (h : Fits f m e) :
    PacksAs f (.div f x (.finite .positive m e h.pos)) (sizeIn f x / quantity m 1 e) := by
  cases hx with
  | zero s =>
    rw [sizeIn_zero, zero_div]
    exact packsAs_zero f _
  | finite h' he' =>
    rw [sizeIn_finite h']
    exact packsAs_div_finite hf h' h

/-! ### Other precisions -/

/-- A significand is rounded once its exponent is no larger than the one it is rounded to. -/
theorem exists_round_eq (g : Format) (s : Sign) (hm : 0 < m) (e : Int) :
    ∃ m' e', UnpackedFloat.round g s m e = roundWithAccuracy g s m' e' .exact ∧
      e' ≤ g.targetExponent (totalExponent m' e') ∧ quantity m' 1 e' = quantity m 1 e := by
  set low := (e - g.targetExponent (totalExponent m e)).toNat with hlow
  have htotal : totalExponent (m * 2 ^ low) (e - low) = totalExponent m e := by
    rw [totalExponent, totalExponent, log2_mul_two_pow hm.ne']
    omega
  refine ⟨m * 2 ^ low, e - low, ?_, ?_, ?_⟩
  · unfold UnpackedFloat.round decreaseExponent
    simp only [← hlow, Nat.shiftLeft_eq]
  · rw [htotal]
    omega
  · have hpower : (2 : ℚ) ^ low * 2 ^ (e - low) = 2 ^ e := by
      rw [← zpow_natCast, ← two_pow_add]
      congr 1
      omega
    rw [quantity, quantity, Nat.cast_mul, Nat.cast_pow, Nat.cast_ofNat, Nat.cast_one, div_one,
      div_one, mul_assoc, hpower]

theorem packsAs_round (hg : 2 ≤ g.exponentBits) (hm : 0 < m) :
    PacksAs g (.round g .positive m e) (quantity m 1 e) := by
  obtain ⟨m', e', hround, hright, hsize⟩ := exists_round_eq g .positive hm e
  rw [hround, ← hsize]
  exact packsAs_whole hg hright

/-- A finite number that is not negative becomes the one that a word of another format holds. -/
theorem packsAs_nearest (hg : 2 ≤ g.exponentBits) (hx : Magnitude f x) :
    PacksAs g (nearest g x) (sizeIn f x) := by
  cases hx with
  | zero s =>
    rw [sizeIn_zero]
    exact packsAs_zero g s
  | finite h he =>
    rw [sizeIn_finite h]
    exact packsAs_round hg h.pos

/-! ### Double precision -/

variable {a b a' b' d : Float}

/-- The size of a double-precision number, with its sign. -/
def size (a : Float) : ℚ := sizeIn .binary64 a.toModel.unpack

theorem zero_le_iff_value (ha : IsNumber a.toModel.unpack) :
    (0 : Float) ≤ a ↔ 0 ≤ valueIn .binary64 a.toModel.unpack := by
  have hzero : (0 : Float).toModel.unpack = .zero .positive := rfl
  rw [le_iff_value (by rw [hzero]; exact .zero .positive) ha, hzero, value, valueIn_binary64]

/-- What is not negative is finite, or the positive infinity. -/
theorem magnitude_or_infinity (ha : (0 : Float) ≤ a) :
    Magnitude .binary64 a.toModel.unpack ∨ a.toModel.unpack = .infinity .positive := by
  have hnumber := (isNumber_of_le ha).2
  exact magnitude_cases hnumber.isNumberIn ((zero_le_iff_value hnumber).mp ha)

theorem size_mono (h : a ≤ b) : size a ≤ size b := by
  obtain ⟨ha, hb⟩ := isNumber_of_le h
  rw [size, size, sizeIn_le_iff, valueIn_binary64, valueIn_binary64]
  exact (le_iff_value ha hb).mp h

/-- What is not negative and not larger than a finite number is finite. -/
theorem magnitude_of_le (ha : (0 : Float) ≤ a) (h : a ≤ b)
    (hb : Magnitude .binary64 b.toModel.unpack) : Magnitude .binary64 a.toModel.unpack := by
  refine (magnitude_or_infinity ha).resolve_right fun hinfinite ↦ ?_
  have hle := size_mono h
  have hlimit := valueIn_lt_limitIn (by decide) hb
  rw [size, size, sizeIn_le_iff, hinfinite, valueIn, Sign.apply] at hle
  omega

theorem magnitude_of_le_one (ha : (0 : Float) ≤ a) (h : a ≤ 1) :
    Magnitude .binary64 a.toModel.unpack := by
  refine magnitude_of_le ha h ?_
  have hone : (1 : Float).toModel.unpack = .finite .positive (2 ^ 52) (-52) (by decide) := rfl
  rw [hone]
  exact .finite ⟨by decide, by decide, by decide, Or.inl le_rfl⟩ (by decide)

/-- What is read from a number that was packed. -/
theorem value_of_packsAs {q : ℚ} (ha : a.toModel = .pack x) (hx : PacksAs .binary64 x q) :
    IsNumber a.toModel.unpack ∧ valueIn .binary64 a.toModel.unpack = packedValue .binary64 x := by
  rw [ha]
  exact ⟨isNumber_unpack (unpack_pack_ne_notANumber hx.ne_notANumber), rfl⟩

theorem le_of_packsAs {q q' : ℚ} (ha : a.toModel = .pack x) (hb : b.toModel = .pack y)
    (hx : PacksAs .binary64 x q) (hy : PacksAs .binary64 y q') (hq : 0 ≤ q) (hle : q ≤ q') :
    a ≤ b := by
  obtain ⟨hnumber, hvalue⟩ := value_of_packsAs ha hx
  obtain ⟨hnumber', hvalue'⟩ := value_of_packsAs hb hy
  rw [le_iff_value hnumber hnumber', ← valueIn_binary64, ← valueIn_binary64, hvalue, hvalue']
  exact hx.mono hy hq hle

theorem zero_le_of_packsAs {q : ℚ} (ha : a.toModel = .pack x) (hx : PacksAs .binary64 x q) :
    (0 : Float) ≤ a := by
  obtain ⟨hnumber, hvalue⟩ := value_of_packsAs ha hx
  rw [zero_le_iff_value hnumber, hvalue]
  exact hx.packedValue_nonneg

theorem mul_mono (ha : (0 : Float) ≤ a) (h : a ≤ b) (hb : b ≤ 1) (ha' : (0 : Float) ≤ a')
    (h' : a' ≤ b') (hb' : b' ≤ 1) : a * a' ≤ b * b' := by
  have hmb := magnitude_of_le_one (Chronology.le_trans _ _ _ ha h) hb
  have hmb' := magnitude_of_le_one (Chronology.le_trans _ _ _ ha' h') hb'
  have hma := magnitude_of_le ha h hmb
  have hma' := magnitude_of_le ha' h' hmb'
  exact le_of_packsAs rfl rfl (packsAs_mul (by decide) hma hma') (packsAs_mul (by decide) hmb hmb')
    (mul_nonneg (sizeIn_nonneg hma) (sizeIn_nonneg hma'))
    (mul_le_mul (size_mono h) (size_mono h') (sizeIn_nonneg hma') (sizeIn_nonneg hmb))

/-- A quotient by a positive number is packed from the exact quotient, or it is infinite as the
dividend is. -/
theorem div_cases_of_nonneg (ha : (0 : Float) ≤ a) (hd : Scalar.isPositive d = true) :
    (Magnitude .binary64 a.toModel.unpack ∧
        ∃ x, (a / d).toModel = .pack x ∧ PacksAs .binary64 x (size a / size d)) ∨
      a.toModel.unpack = .infinity .positive ∧ (a / d).toModel.unpack = .infinity .positive := by
  obtain ⟨m, e, hm, hd'⟩ := exists_of_isPositive hd
  have hfits := (canonical_unpack hd').fits
  have hdiv : (a / d).toModel =
      .pack (.div .binary64 a.toModel.unpack (.finite .positive m e hfits.pos)) := by
    rw [← hd']
    rfl
  rcases magnitude_or_infinity ha with hmagnitude | hinfinite
  · have hsize : size d = quantity m 1 e := by rw [size, hd', sizeIn_finite hfits]
    rw [hsize]
    exact Or.inl ⟨hmagnitude, _, hdiv, packsAs_div (by decide) hmagnitude hfits⟩
  · refine Or.inr ⟨hinfinite, ?_⟩
    rw [hdiv, hinfinite]
    exact unpack_pack_infinity .positive

theorem value_infinity (ha : a.toModel.unpack = .infinity .positive) :
    IsNumber a.toModel.unpack ∧ valueIn .binary64 a.toModel.unpack = limitIn .binary64 := by
  rw [ha]
  exact ⟨.infinity .positive, rfl⟩

theorem zero_le_div (ha : (0 : Float) ≤ a) (hd : Scalar.isPositive d = true) :
    (0 : Float) ≤ a / d := by
  rcases div_cases_of_nonneg ha hd with ⟨-, x, hdiv, hx⟩ | ⟨-, hdiv⟩
  · exact zero_le_of_packsAs hdiv hx
  · obtain ⟨hnumber, hvalue⟩ := value_infinity hdiv
    rw [zero_le_iff_value hnumber, hvalue]
    exact Int.natCast_nonneg _

theorem div_mono (ha : (0 : Float) ≤ a) (h : a ≤ b) (hd : Scalar.isPositive d = true) :
    a / d ≤ b / d := by
  have hb : (0 : Float) ≤ b := Chronology.le_trans _ _ _ ha h
  have hpos : 0 ≤ size d := by
    obtain ⟨m, e, hm, hd'⟩ := exists_of_isPositive hd
    rw [size, hd', sizeIn_finite (canonical_unpack hd').fits]
    exact quantity_nonneg m 1 e
  rcases div_cases_of_nonneg hb hd with ⟨hmb, y, hdiv', hy⟩ | ⟨-, hdiv'⟩
  · have hma := magnitude_of_le ha h hmb
    rcases div_cases_of_nonneg ha hd with ⟨-, x, hdiv, hx⟩ | ⟨hinfinite, -⟩
    · exact le_of_packsAs hdiv hdiv' hx hy (div_nonneg (sizeIn_nonneg hma) hpos)
        (div_le_div_of_nonneg_right (size_mono h) hpos)
    · rw [hinfinite] at hma
      cases hma
  · -- Nothing is larger than an infinite quotient.
    obtain ⟨hnumber', hvalue'⟩ := value_infinity hdiv'
    rcases div_cases_of_nonneg ha hd with ⟨-, x, hdiv, hx⟩ | ⟨-, hdiv⟩
    · obtain ⟨hnumber, hvalue⟩ := value_of_packsAs hdiv hx
      rw [le_iff_value hnumber hnumber', ← valueIn_binary64, ← valueIn_binary64, hvalue, hvalue']
      exact hx.packedValue_le
    · obtain ⟨hnumber, hvalue⟩ := value_infinity hdiv
      rw [le_iff_value hnumber hnumber', ← valueIn_binary64, ← valueIn_binary64, hvalue, hvalue']

theorem toModel_narrow (a : Float) :
    (narrow a).toModel = .pack (nearest .binary32 a.toModel.unpack) := rfl

/-- A finite number that is not negative is narrowed to the number nearest to its size. -/
theorem packsAs_narrow (ha : Magnitude .binary64 a.toModel.unpack) :
    IsNumberIn .binary32 (narrow a).toModel.unpack ∧
      PacksAs .binary32 (nearest .binary32 a.toModel.unpack) (size a) := by
  have hx := packsAs_nearest (g := .binary32) (by decide) ha
  refine ⟨isNumberIn_single ?_, hx⟩
  rw [toModel_narrow]
  exact unpack_pack_ne_notANumber hx.ne_notANumber

theorem narrow_mono (ha : (0 : Float) ≤ a) (h : a ≤ b) (hb : b ≤ 1) : narrow a ≤ narrow b := by
  have hmb := magnitude_of_le_one (Chronology.le_trans _ _ _ ha h) hb
  have hma := magnitude_of_le ha h hmb
  obtain ⟨hnumber, hx⟩ := packsAs_narrow hma
  obtain ⟨hnumber', hy⟩ := packsAs_narrow hmb
  rw [le_single_iff_value hnumber hnumber', singleValue, singleValue, toModel_narrow,
    toModel_narrow]
  exact hx.mono hy (sizeIn_nonneg hma) (size_mono h)

theorem isFinite_of_magnitude (ha : Magnitude .binary64 a.toModel.unpack) :
    Scalar.isFinite a = true := by
  rw [isFinite_eq]
  exact ha.isFinite

theorem one_sub_anti (ha : (0 : Float) ≤ a) (h : a ≤ b) (hb : b ≤ 1) : 1 - b ≤ 1 - a := by
  have hmb := magnitude_of_le_one (Chronology.le_trans _ _ _ ha h) hb
  have hma := magnitude_of_le ha h hmb
  exact sub_le_sub_left (isFinite_of_magnitude hma) (isFinite_of_magnitude hmb) (by decide +kernel)
    h

theorem isNumber_of_isNumber (h : Scalar.isNumber a = true) : IsNumber a.toModel.unpack :=
  isNumber_unpack (isNumber_iff.mp h)

theorem isNumber_eq_true (h : IsNumber a.toModel.unpack) : Scalar.isNumber a = true := by
  refine isNumber_iff.mpr fun hnan ↦ ?_
  rw [hnan] at h
  cases h

end Binary

open Binary

instance : Gradual Float where
  isNumber_of_le _ _ h := (isNumber_of_le h).imp isNumber_eq_true isNumber_eq_true
  le_of_not_lt_of_isNumber a b ha hb h := by
    rw [lt_iff_value (isNumber_of_isNumber hb) (isNumber_of_isNumber ha)] at h
    rw [le_iff_value (isNumber_of_isNumber ha) (isNumber_of_isNumber hb)]
    omega
  zero_le_one := by decide +kernel
  zero_le_sub a b ha hb h := by
    have hle := (le_iff_value (isNumber_of_isFinite ha) (isNumber_of_isFinite hb)).mp h
    refine (zero_le_iff_value (isNumber_sub hb ha)).mpr ?_
    rw [valueIn_binary64, value_sub_of_isFinite hb ha, ← heldIntIn_zero .binary64]
    exact heldIntIn_mono _ (by omega)
  zero_le_div _ _ := zero_le_div
  div_le_div _ _ _ := div_mono
  one_sub_le_one_sub _ _ := one_sub_anti
  one_sub_zero := by decide +kernel
  one_sub_one := by decide +kernel
  mul_le_mul _ _ _ _ := mul_mono
  zero_mul_zero := by decide +kernel
  one_mul_one := by decide +kernel

instance : Coarsening Float32 Float where
  narrow_le_narrow _ _ := narrow_mono
  narrow_zero := by decide +kernel
  narrow_one := by decide +kernel
  le_refl a h := by
    have hnumber := (isNumber_of_le_single h).2
    exact (le_single_iff_value hnumber hnumber).mpr le_rfl

end LayerCanvas
