import LayerCanvas.Proofs.Decimal.Accuracy

/-!
What a numeral is read as, in either precision. A whole number that a machine integer holds is read
as the nearest number of the precision. Any other numeral is read as a double first, and a number in
single precision is the one nearest to that double; a numeral whose double is infinite is not read.
-/

set_option autoImplicit false
set_option relaxedAutoImplicit false

namespace LayerCanvas

open Float.Model (Format UnpackedFloat totalExponent)
open Float.Model.UnpackedFloat

namespace Binary

variable {f g : Format} {x y : UnpackedFloat} {n m : Nat} {e : Int} {q : ℚ}

/-! ### Signs -/

theorem neg_neg_unpacked (x : UnpackedFloat) : x.neg.neg = x := by
  cases x with
  | notANumber => rfl
  | infinity s => cases s <;> rfl
  | zero s => cases s <;> rfl
  | finite s m e hm => cases s <;> rfl

theorem packedValue_whole (hf : 2 ≤ f.exponentBits) (s : Sign)
    (hright : e ≤ f.targetExponent (totalExponent n e)) :
    packedValue f (roundWithAccuracy f s n e .exact) = s.apply (heldSize f (quantity n 1 e)) := by
  have hwhole : n / 1 = n := Nat.div_one n
  have hpacked : packedValue f (roundWithAccuracy f s (n / 1) e .exact) =
      s.apply (heldFraction f n 1 e) :=
    packedValue_fraction hf s (by rw [Nat.mod_one]; rfl) (by rwa [hwhole])
  rw [heldFraction_eq Nat.one_pos (by rwa [hwhole]), hwhole] at hpacked
  exact hpacked

/-- A finite number becomes the one of another format that lies nearest to it. -/
theorem isNearest_nearest (hg : 2 ≤ g.exponentBits) (hx : IsNumberIn f x)
    (hfinite : x.isFinite = true) :
    IsNearest g (UnpackedFloat.unpack g (UnpackedFloat.pack g (nearest g x))) (sizeIn f x) := by
  have hpositive {x : UnpackedFloat} (hx : Magnitude f x) :
      IsNearest g (UnpackedFloat.unpack g (UnpackedFloat.pack g (nearest g x))) (sizeIn f x) :=
    (isHeld_of_packsAs hg (packsAs_nearest hg hx)).isNearest hg (sizeIn_nonneg hx)
  cases hx with
  | infinity s => cases hfinite
  | zero s => exact hpositive (.zero s)
  | @finite s m e h he =>
    cases s with
    | positive => exact hpositive (.finite h he)
    | negative =>
      obtain ⟨m', e', hround, hright, hsize⟩ := exists_round_eq g .negative h.pos e
      have hnumber : nearest g (.finite .negative m e h.pos) ≠ .notANumber := by
        simp only [nearest, hround, roundWithAccuracy_eq_dite]
        split_ifs <;> simp
      have hvalue : packedValue g (nearest g (.finite .negative m e h.pos)) =
          Sign.negative.apply (heldSize g (quantity m 1 e)) := by
        rw [nearest, hround, packedValue_whole hg .negative hright, hsize]
      -- The opposite is what a word holds in the place of the opposite size.
      have hheld : IsHeld g (UnpackedFloat.unpack g (UnpackedFloat.pack g
          (nearest g (.finite .negative m e h.pos)))).neg (quantity m 1 e) := by
        refine ⟨(isNumberIn_unpack hg (unpack_pack_ne_notANumber hnumber)).neg, ?_⟩
        rw [valueIn_neg, ← packedValue, hvalue, Sign.apply, Int.neg_neg]
      have hopposite : sizeIn f (.finite .negative m e h.pos) = -quantity m 1 e := by
        rw [← sizeIn_finite h, ← sizeIn_neg]
        rfl
      rw [hopposite, ← neg_neg_unpacked (UnpackedFloat.unpack _ _)]
      exact (hheld.isNearest hg (quantity_nonneg m 1 e)).neg

/-- A number that a word holds is read again. -/
theorem IsNumberIn.unpack_pack (h : IsNumberIn f x) :
    UnpackedFloat.unpack f (UnpackedFloat.pack f x) = x := by
  cases h with
  | infinity s => exact unpack_packedInfinity f s
  | zero s => exact unpack_packedZero f s
  | finite s h he => rw [unpack_pack_fits h, if_pos he]

/-! ### Natural numbers in single precision -/

/-- What is held in the place of a number that is held is held in the place of the first size. -/
theorem IsHeld.trans (hf : 2 ≤ f.exponentBits) (h : IsHeld f x q) (hy : IsHeld f y (sizeIn f x)) :
    IsHeld f y q := by
  refine ⟨hy.isNumberIn, ?_⟩
  have hkept : (heldIn f (heldSize f q) : Int) = heldSize f q := by
    have hheld := heldIntIn_valueIn hf h.isNumberIn
    rw [h.valueIn_eq] at hheld
    exact hheld
  rw [hy.valueIn_eq, h.sizeIn_eq, heldSize_units, hkept]

theorem quantity_zero (n : Nat) : quantity n 1 0 = n := by
  rw [quantity, Nat.cast_one, div_one, zpow_zero, mul_one]

theorem isHeld_word_single (hn : 0 < n) (hlt : n < 2 ^ 64) :
    IsHeld .binary32 n.toUInt64.toFloat32.toModel.unpack n := by
  have hround : n.toUInt64.toFloat32.toModel = .pack (.round .binary32 .positive n 0) := by
    show Float32.Model.pack (.normalize .binary32 (n.toUInt64.toNat : Int) 0 .positive) = _
    have hcompare : compare (n : Int) 0 = .gt := Int.compare_eq_gt.mpr (by omega)
    rw [UInt64.toNat_ofNat', Nat.mod_eq_of_lt hlt, UnpackedFloat.normalize, hcompare]
    rfl
  have hpacks : PacksAs .binary32 (.round .binary32 .positive n 0) (quantity n 1 0) :=
    packsAs_round (by decide) hn
  rw [hround, ← quantity_zero]
  exact isHeld_of_packsAs (by decide) hpacks

/-- A word is not infinite in single precision. -/
theorem magnitude_word_single {x : Float32} (hlt : n < 2 ^ 64)
    (h : IsHeld .binary32 x.toModel.unpack n) : Magnitude .binary32 x.toModel.unpack := by
  refine h.magnitude_of_lt (by decide) (Nat.cast_nonneg n) ?_
  have hlimit : (limitIn .binary32 : ℚ) * 2 ^ Format.binary32.minExponent = 2 ^ (128 : Int) :=
    limitIn_mul (by decide)
  have hlt' : (n : ℚ) < 2 ^ 64 := mod_cast hlt
  rw [hlimit]
  norm_num
  linarith

/-- A natural number with a larger significand than a word holds is rounded once. -/
theorem isHeld_ofScientific_single (hn : 0 < n) :
    IsHeld .binary32 (Float32.Model.ofScientific n 0).unpack n := by
  have hlog : (n * 2 ^ 24).log2 = n.log2 + 24 := log2_mul_two_pow hn.ne' 24
  have hround : UnpackedFloat.ofScientific .binary32 n 0 =
      roundWithAccuracy .binary32 .positive (n * 2 ^ 24) (-24) .exact := by
    unfold UnpackedFloat.ofScientific
    have hlow : ¬ (0 : Int) < -(2 ^ 8 + (n.log2 : Int)) := by omega
    rw [dif_neg hn.ne', if_neg (by decide), if_neg hlow, if_pos le_rfl]
    show roundWithAccuracy .binary32 .positive (n <<< 24 * 1) (-24) .exact = _
    rw [Nat.mul_one, Nat.shiftLeft_eq]
  have hpacks : PacksAs .binary32 (roundWithAccuracy .binary32 .positive (n * 2 ^ 24) (-24) .exact)
      (quantity (n * 2 ^ 24) 1 (-24)) := by
    refine packsAs_whole (by decide) ?_
    rw [targetExponent_binary32, totalExponent, hlog]
    omega
  have hpower : (2 : ℚ) ^ 24 * 2 ^ (-24 : Int) = 1 := by norm_num
  have hsize : quantity (n * 2 ^ 24) 1 (-24) = n := by
    rw [quantity, Nat.cast_mul, Nat.cast_pow, Nat.cast_ofNat, Nat.cast_one, div_one, mul_assoc,
      hpower, mul_one]
  rw [← hround, hsize] at hpacks
  exact isHeld_of_packsAs (by decide) hpacks

theorem isHeld_ofNat_single (hlt : n < 2 ^ 64) :
    IsHeld .binary32 (Float32.ofNat n).toModel.unpack n := by
  rcases Nat.eq_zero_or_pos n with rfl | hn
  · rw [Nat.cast_zero]
    exact isHeld_zero _ .positive
  show IsHeld .binary32 (Float32.ofScientific n false 0).toModel.unpack n
  unfold Float32.ofScientific
  split_ifs with hshort htrue htrue
  · cases htrue
  · -- A short number is exact, and multiplied by one.
    have hword := isHeld_word_single hn hlt
    have hfits : Fits .binary32 (2 ^ 23) (-23) := ⟨by decide, by decide, by decide, Or.inl le_rfl⟩
    have hone : Float32.exactlyRepresentablePowersOfTen[0].toModel.unpack =
        .finite .positive (2 ^ 23) (-23) hfits.pos := rfl
    have hsize : sizeIn .binary32 (.finite .positive (2 ^ 23) (-23) hfits.pos) = 1 := by
      rw [sizeIn_finite hfits, quantity]
      norm_num
    have hproduct := isHeld_of_packsAs (by decide) (packsAs_mul (by decide)
      (magnitude_word_single hlt hword) (.finite hfits (by decide)))
    rw [hsize, mul_one, ← hone] at hproduct
    exact hword.trans (by decide) hproduct
  · cases htrue
  · exact isHeld_ofScientific_single hn

/-- The negative of a number in single precision. -/
theorem unpack_neg_single {x : Float32} (h : IsNumberIn .binary32 x.toModel.unpack) :
    (-x).toModel.unpack = x.toModel.unpack.neg := h.neg.unpack_pack

end Binary

namespace Numeral

open Binary
open Digit (value)

variable {n : Numeral}

/-- The number that a numeral writes. -/
def amount (n : Numeral) : ℚ := if n.negative then -n.size else n.size

/-- Whether a numeral writes a whole number, without fraction and exponent, that a machine integer
holds: a word of 64 bits, or for a negative one a signed word. -/
def IsWord (n : Numeral) : Prop :=
  n.fraction = [] ∧ n.exponent = none ∧
    if n.negative then 0 < value n.whole ∧ value n.whole ≤ 2 ^ 63 else value n.whole < 2 ^ 64

/-- Whether a numeral has so few digits, and so small a power of ten, that a double holds both. -/
def IsShort (n : Numeral) : Prop :=
  value (n.whole ++ n.fraction) < 2 ^ 53 ∧ (n.power - n.fraction.length).natAbs ≤ 22

/-- Whether a number is the amount of a numeral up to the roundings on the way to it. -/
structure IsAbout (n : Numeral) (q : ℚ) : Prop where
  abs_sub_le : |q - n.amount| ≤ |n.amount| / 2 ^ 49
  exact : n.IsShort → q = n.amount

/-- Whether a number of a format is what a numeral is rounded to. A machine integer is rounded once,
and any other numeral to a double first, in several steps. -/
structure IsRounded (f : Format) (n : Numeral) (x : UnpackedFloat) : Prop where
  word : n.IsWord → IsNearest f x n.amount
  decimal : ¬ n.IsWord → ∃ q y, n.IsAbout q ∧ IsNearest .binary64 y q ∧ y.isFinite = true ∧
    IsNearest f x (sizeIn .binary64 y)

/-- Whether a numeral is too large to be read: the double in its place is infinite. -/
def IsTooLarge (n : Numeral) : Prop :=
  ¬ n.IsWord ∧ ∃ q s, n.IsAbout q ∧ IsNearest .binary64 (.infinity s) q

/-! ### Machine integers -/

theorem amount_of_isWord (h : n.IsWord) :
    n.amount = if n.negative then -(value n.whole : ℚ) else value n.whole := by
  obtain ⟨hfraction, hexponent, -⟩ := h
  have hpower : n.power = 0 := by rw [power, hexponent]
  have hsize : n.size = value n.whole := by
    rw [size, hfraction, hpower, List.append_nil, List.length_nil, Nat.cast_zero, sub_zero,
      zpow_zero, mul_one]
  rw [amount, hsize]

theorem absorb_zero_of_lt {ds : List Digit} (h : value ds < 2 ^ 64) :
    absorb 0 ds = (value ds, []) := by
  have hfits : 0 * 10 ^ ds.length + value ds < UInt64.size := by
    rw [Nat.zero_mul, Nat.zero_add]
    exact h
  simpa only [Nat.zero_mul, Nat.zero_add] using absorb_eq hfits

theorem lt_of_absorb_nil {ds : List Digit} (h : (absorb 0 ds).2 = []) : value ds < 2 ^ 64 := by
  have hvalue := (absorbed 0 ds).value_eq
  have hlt : (absorb 0 ds).1 < UInt64.size := absorb_lt (by decide) ds
  rw [h] at hvalue
  have hnone : value [] = 0 := rfl
  rw [Nat.zero_mul, Nat.zero_add, List.length_nil, Nat.pow_zero, Nat.mul_one, hnone,
    Nat.add_zero] at hvalue
  rw [hvalue]
  exact hlt

theorem integer?_of_isWord (h : n.IsWord) :
    n.integer? = some (if n.negative then -(value n.whole : Int) else value n.whole) := by
  obtain ⟨hfraction, hexponent, hrange⟩ := h
  unfold integer?
  rw [if_pos ⟨hfraction, hexponent⟩]
  cases hnegative : n.negative with
  | true =>
    rw [hnegative, if_pos rfl] at hrange
    rw [absorb_zero_of_lt (by omega)]
    have hfits : 0 < value n.whole ∧ 2 * value n.whole ≤ UInt64.size := ⟨hrange.1, by
      have hword : UInt64.size = 2 ^ 64 := rfl
      omega⟩
    simp [hfits]
  | false =>
    rw [hnegative, if_neg Bool.false_ne_true] at hrange
    rw [absorb_zero_of_lt hrange]
    simp

theorem integer?_of_not_isWord (h : ¬ n.IsWord) : n.integer? = none := by
  have hword : UInt64.size = 2 ^ 64 := rfl
  unfold integer?
  by_cases hkind : n.fraction = [] ∧ n.exponent = none
  · rw [if_pos hkind]
    by_cases hrest : (absorb 0 n.whole).2 = []
    · have hlt := lt_of_absorb_nil hrest
      cases hnegative : n.negative with
      | true =>
        have hrange : ¬ (0 < value n.whole ∧ 2 * value n.whole ≤ UInt64.size) := fun hrange ↦
          h ⟨hkind.1, hkind.2, by rw [hnegative, if_pos rfl]; omega⟩
        rw [absorb_zero_of_lt hlt]
        simp [hrange]
      | false => exact absurd ⟨hkind.1, hkind.2, by rwa [hnegative, if_neg Bool.false_ne_true]⟩ h
    · simp [hrest]
  · rw [if_neg hkind]

theorem IsWord.lt (h : n.IsWord) : value n.whole < 2 ^ 64 := by
  obtain ⟨-, -, hrange⟩ := h
  split_ifs at hrange <;> omega

theorem toFloat?_of_isWord (h : n.IsWord) :
    n.toFloat? = some (n.signed (Float.ofNat (value n.whole))) := by
  rw [toFloat?, integer?_of_isWord h, signed]
  obtain ⟨-, -, hrange⟩ := h
  cases hnegative : n.negative with
  | false => rfl
  | true =>
    rw [hnegative, if_pos rfl] at hrange
    obtain ⟨k, hk⟩ := Nat.exists_eq_add_one.mpr hrange.1
    rw [hk]
    rfl

theorem toFloat32?_of_isWord (h : n.IsWord) :
    n.toFloat32? = some (if n.negative then -Float32.ofNat (value n.whole)
      else Float32.ofNat (value n.whole)) := by
  rw [toFloat32?, integer?_of_isWord h]
  obtain ⟨-, -, hrange⟩ := h
  cases hnegative : n.negative with
  | false => rfl
  | true =>
    rw [hnegative, if_pos rfl] at hrange
    obtain ⟨k, hk⟩ := Nat.exists_eq_add_one.mpr hrange.1
    rw [hk]
    rfl

/-! ### Other numerals -/

/-- A numeral is read as a significand with a power of ten, which has the size that is written up to
seven roundings. -/
theorem exists_scaled (n : Numeral) :
    ∃ significand exponent q, 0 ≤ q ∧ |q - n.size| ≤ n.size / 2 ^ 49 ∧
      (n.IsShort → q = n.size) ∧ IsReading q (scale? significand exponent) ∧
        n.decimal? = (scale? significand exponent).map n.signed := by
  by_cases hshort : n.IsShort
  · have hlt : value (n.whole ++ n.fraction) < 2 ^ 64 := hshort.1.trans (by decide)
    obtain ⟨q, hscaled, hreading⟩ := exists_isReading hlt (n.power - n.fraction.length)
    have hexact : q = n.size := hscaled.exact hshort.1 hshort.2
    refine ⟨_, _, q, hscaled.nonneg, ?_, fun _ ↦ hexact, hreading, decimal?_eq hlt⟩
    rw [hexact, sub_self, abs_zero]
    exact div_nonneg n.size_nonneg (by norm_num)
  · obtain ⟨significand, exponent, hlt, hclose, hdecimal⟩ := exists_significand n
    obtain ⟨q, hscaled, hreading⟩ := exists_isReading hlt exponent
    exact ⟨significand, exponent, q, hscaled.nonneg,
      (hscaled.close.trans hclose).abs_sub_le n.size_nonneg, fun h ↦ absurd h hshort, hreading,
      hdecimal⟩

/-- What a numeral with a fraction or an exponent is read for, or one with too many digits. -/
theorem exists_about (n : Numeral) :
    ∃ q, n.IsAbout q ∧
      ((∃ x, n.decimal? = some x ∧ x.toModel.unpack.isFinite = true ∧
          IsNearest .binary64 x.toModel.unpack q) ∨
        n.decimal? = none ∧ ∃ s, IsNearest .binary64 (.infinity s) q) := by
  obtain ⟨significand, exponent, q, hq, hnear, hexact, hreading, hdecimal⟩ := exists_scaled n
  -- The sign of the numeral is the sign of all that is read for it.
  have habout : n.IsAbout (if n.negative then -q else q) := by
    refine ⟨?_, fun hshort ↦ by rw [hexact hshort, amount]⟩
    unfold amount
    split_ifs
    · rwa [← neg_sub', abs_neg, abs_neg, abs_of_nonneg n.size_nonneg]
    · rwa [abs_of_nonneg n.size_nonneg]
  refine ⟨_, habout, ?_⟩
  rw [hdecimal]
  cases hscale : scale? significand exponent with
  | some y =>
    rw [hscale] at hreading
    obtain ⟨hmagnitude, hheld⟩ := hreading
    have hnearest := hheld.isNearest (by decide) hq
    have hfinite := isFinite_of_magnitude hmagnitude
    refine Or.inl ⟨n.signed y, rfl, ?_, ?_⟩
    · rw [← isFinite_eq]
      exact isFinite_signed hfinite
    · unfold signed
      split_ifs
      · rw [unpack_neg hfinite]
        exact hnearest.neg
      · exact hnearest
  | none =>
    rw [hscale] at hreading
    have hnearest := IsHeld.isNearest (by decide) hreading hq
    refine Or.inr ⟨rfl, ?_⟩
    split_ifs
    · exact ⟨.negative, hnearest.neg⟩
    · exact ⟨.positive, hnearest⟩

/-- A numeral that is no machine integer is read as a double, or it is too large. -/
theorem exists_of_not_isWord (h : ¬ n.IsWord) :
    (∃ x, n.decimal? = some x ∧ x.toModel.unpack.isFinite = true ∧
        ∃ q, n.IsAbout q ∧ IsNearest .binary64 x.toModel.unpack q) ∨
      n.decimal? = none ∧ n.IsTooLarge := by
  obtain ⟨q, habout, ⟨x, hx, hfinite, hnearest⟩ | ⟨hnone, s, hnearest⟩⟩ := exists_about n
  · exact Or.inl ⟨x, hx, hfinite, q, habout, hnearest⟩
  · exact Or.inr ⟨hnone, h, q, s, habout, hnearest⟩

/-! ### Both precisions -/

theorem toFloat?_of_not_isWord (h : ¬ n.IsWord) : n.toFloat? = n.decimal? := by
  rw [toFloat?, integer?_of_not_isWord h]

theorem toFloat32?_of_not_isWord (h : ¬ n.IsWord) : n.toFloat32? = n.decimal?.map narrow := by
  rw [toFloat32?, integer?_of_not_isWord h]

/-- A numeral is rounded to the double that is read. -/
theorem isRounded_of_toFloat? {x : Float} (h : n.toFloat? = some x) :
    n.IsRounded .binary64 x.toModel.unpack := by
  by_cases hword : n.IsWord
  · refine ⟨fun _ ↦ ?_, fun hnot ↦ absurd hword hnot⟩
    have hnearest := (isHeld_ofNat hword.lt).isNearest (by decide) (Nat.cast_nonneg _)
    obtain rfl := Option.some.inj ((toFloat?_of_isWord hword).symm.trans h)
    rw [amount_of_isWord hword, signed]
    split_ifs
    · rw [unpack_neg (isFinite_of_magnitude (magnitude_ofNat hword.lt))]
      exact hnearest.neg
    · exact hnearest
  · refine ⟨fun hyes ↦ absurd hyes hword, fun _ ↦ ?_⟩
    rw [toFloat?_of_not_isWord hword] at h
    obtain ⟨y, hy, hfinite, q, habout, hnearest⟩ | ⟨hnone, -⟩ := exists_of_not_isWord hword
    · obtain rfl := Option.some.inj (hy.symm.trans h)
      exact ⟨q, _, habout, hnearest, hfinite, isNearest_sizeIn hnearest.isNumberIn⟩
    · rw [hnone] at h
      cases h

/-- A numeral is rounded to the number in single precision that is read. -/
theorem isRounded_of_toFloat32? {x : Float32} (h : n.toFloat32? = some x) :
    n.IsRounded .binary32 x.toModel.unpack := by
  by_cases hword : n.IsWord
  · refine ⟨fun _ ↦ ?_, fun hnot ↦ absurd hword hnot⟩
    have hnearest := (isHeld_ofNat_single hword.lt).isNearest (by decide) (Nat.cast_nonneg _)
    obtain rfl := Option.some.inj ((toFloat32?_of_isWord hword).symm.trans h)
    rw [amount_of_isWord hword]
    split_ifs
    · rw [unpack_neg_single hnearest.isNumberIn]
      exact hnearest.neg
    · exact hnearest
  · refine ⟨fun hyes ↦ absurd hyes hword, fun _ ↦ ?_⟩
    rw [toFloat32?_of_not_isWord hword] at h
    obtain ⟨y, hy, hfinite, q, habout, hnearest⟩ | ⟨hnone, -⟩ := exists_of_not_isWord hword
    · rw [hy] at h
      obtain rfl := Option.some.inj h
      exact ⟨q, _, habout, hnearest, hfinite,
        isNearest_nearest (by decide) hnearest.isNumberIn hfinite⟩
    · rw [hnone] at h
      cases h

/-- A numeral is read in both precisions or in neither. -/
theorem toFloat32?_eq_none_iff : n.toFloat32? = none ↔ n.toFloat? = none := by
  by_cases hword : n.IsWord
  · rw [toFloat?_of_isWord hword, toFloat32?_of_isWord hword]
    exact iff_of_false nofun nofun
  · rw [toFloat?_of_not_isWord hword, toFloat32?_of_not_isWord hword, Option.map_eq_none_iff]

/-- A numeral that is not read is too large. -/
theorem isTooLarge_of_toFloat? (h : n.toFloat? = none) : n.IsTooLarge := by
  have hword : ¬ n.IsWord := fun hword ↦ by
    rw [toFloat?_of_isWord hword] at h
    cases h
  rw [toFloat?_of_not_isWord hword] at h
  obtain ⟨y, hy, -⟩ | ⟨-, hlarge⟩ := exists_of_not_isWord hword
  · rw [hy] at h
    cases h
  · exact hlarge

end Numeral

end LayerCanvas
