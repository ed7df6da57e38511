import LayerCanvas.Proofs.Binary.Scaling
import LayerCanvas.Proofs.Binary.Widening

/-!
Single-precision numbers as they are made from double-precision ones. Up to the largest of them the
result is finite, and it is zero only for what lies below the least one.
-/

set_option autoImplicit false
set_option relaxedAutoImplicit false

namespace LayerCanvas.Binary

open Float.Model (Format UnpackedFloat totalExponent)
open Float.Model.UnpackedFloat

/-- A single-precision number is finite if taking it away from itself leaves zero, and only then. -/
theorem isFinite_single_eq (x : Float32) : Scalar.isFinite x = x.toModel.unpack.isFinite := by
  show UnpackedFloat.beq
    (Float32.Model.pack (.sub .binary32 x.toModel.unpack x.toModel.unpack)).unpack
    (Scalar.ofNat 0 : Float32).toModel.unpack = _
  cases x.toModel.unpack with
  | notANumber => rfl
  | infinity s => cases s <;> rfl
  | zero s => cases s <;> rfl
  | finite s m e hm =>
    have hzero : UnpackedFloat.sub .binary32 (.finite s m e hm) (.finite s m e hm) =
        .zero .positive := by
      simp only [UnpackedFloat.sub, Int.sub_self, UnpackedFloat.normalize]
      rfl
    rw [hzero]
    rfl

theorem exists_of_isPositive_single {x : Float32} (h : Scalar.isPositive x = true) :
    ∃ m e hm, x.toModel.unpack = .finite .positive m e hm := by
  obtain ⟨hfinite, hpositive⟩ := Bool.and_eq_true_iff.mp h
  rw [isFinite_single_eq] at hfinite
  have hlt : Float32.lt (Scalar.ofNat 0) x = true := of_decide_eq_true hpositive
  have hpositive' : UnpackedFloat.lt (Scalar.ofNat 0 : Float32).toModel.unpack x.toModel.unpack =
      true := of_decide_eq_true hlt
  have hzero : (Scalar.ofNat 0 : Float32).toModel.unpack = .zero .positive := rfl
  rw [hzero] at hpositive'
  cases hx : x.toModel.unpack with
  | notANumber => simp [hx, UnpackedFloat.isFinite] at hfinite
  | infinity s => simp [hx, UnpackedFloat.isFinite] at hfinite
  | zero s => simp [hx, UnpackedFloat.lt, UnpackedFloat.compare] at hpositive'
  | finite s m e hm =>
    cases s with
    | positive => exact ⟨m, e, hm, rfl⟩
    | negative => simp [hx, UnpackedFloat.lt, UnpackedFloat.compare] at hpositive'

/-- What is held by the format of single precision is given back by a word, unless its exponent is
too large. -/
theorem unpack_pack_single {m : Nat} {e : Int} (h : Fits .binary32 m e) (s : Sign) (he : e ≤ 104) :
    (Float32.Model.pack (.finite s m e h.pos)).unpack = .finite s m e h.pos := by
  have hbias : (Format.binary32.exponentBias : Int) = 127 := rfl
  refine unpack_pack_of_fits h s ?_
  rw [hbias]
  show (e + 127 + (23 : Nat)).toNat + 1 < 256
  omega

theorem fits_of_unpack_single {x : Float32} {s : Sign} {m : Nat} {e : Int} {hm : 0 < m}
    (h : x.toModel.unpack = .finite s m e hm) : Fits .binary32 m e ∧ e ≤ 104 := by
  obtain ⟨hfits, hlarge⟩ := fits_of_unpack h (by decide)
  refine ⟨hfits, ?_⟩
  have hlarge' : (e + 127 + (23 : Nat)).toNat + 1 < 256 := hlarge
  omega

theorem unpack_pack_single_zero (s : Sign) :
    (Float32.Model.pack (.zero s)).unpack = .zero s := by
  cases s <;> rfl

variable {x : Float} {s : Sign} {m : Nat} {e : Int}

theorem targetExponent_binary32 (t : Int) :
    Format.binary32.targetExponent t = max (t - 24) (-149) :=
  rfl

/-- The largest single-precision number is the largest one of its exponent that is kept there. -/
theorem round_largest_exponent (s : Sign) (hm : 2 ^ 52 ≤ m) (hle : m ≤ (2 ^ 24 - 1) * 2 ^ 29) :
    ∃ m', ∃ h : Fits .binary32 m' 104,
      roundWithAccuracy .binary32 s m 75 .exact = .finite s m' 104 h.pos := by
  have hlog : m.log2 = 52 := Nat.le_antisymm
    (Nat.le_of_lt_succ (log2_lt_of_lt (by decide) (hle.trans_lt (by decide)))) (le_log2_of_le hm)
  have hshift : shiftTo .binary32 m 75 = 29 := by
    rw [shiftTo, targetExponent_binary32, totalExponent, hlog]
    rfl
  have hcut : roundedTo .binary32 m 75 .exact = cutBy m 29 := by
    rw [roundedTo, hshift, cutBy]
  have hhigh : cutBy m 29 ≤ 2 ^ 24 - 1 := by
    calc cutBy m 29 ≤ cutBy ((2 ^ 24 - 1) * 2 ^ 29) (0 + 29) := cutBy_mono hle 29
      _ = 2 ^ 24 - 1 := by rw [cutBy_mul, cutBy_zero]
  have hdiv : 2 ^ 23 ≤ m / 2 ^ 29 := by omega
  have hlow : 2 ^ 23 ≤ cutBy m 29 := hdiv.trans (div_le_cutBy m 29)
  have hlog' : (cutBy m 29).log2 = 23 := Nat.le_antisymm
    (Nat.le_of_lt_succ (log2_lt_of_lt (by decide) (by omega))) (le_log2_of_le hlow)
  have hshift' : shiftTo .binary32 (cutBy m 29) 104 = 0 := by
    rw [shiftTo, targetExponent_binary32, totalExponent, hlog']
    rfl
  have hround := roundWithAccuracy_eq_dite .binary32 s m 75 .exact
  simp only [hshift, hcut, show (75 : Int) + (29 : Nat) = 104 from rfl, hshift', Nat.pow_zero,
    Nat.div_one, Int.natCast_zero, Int.add_zero] at hround
  rw [dif_neg (by omega)] at hround
  exact ⟨_, ⟨by omega, hhigh.trans_lt (by decide), by decide, Or.inl hlow⟩, hround⟩

theorem canonical_largestSingle : Canonical ((2 ^ 24 - 1) * 2 ^ 29) 75 :=
  ⟨by decide, by decide, by decide, Or.inl (by decide)⟩

/-- What a finite number becomes in single precision, up to the largest number there. -/
theorem narrow_cases (h : Canonical m e) (hx : x.toModel.unpack = .finite s m e h.pos)
    (hle : units m e ≤ units ((2 ^ 24 - 1) * 2 ^ 29) 75) :
    ((narrow x).toModel.unpack = .zero s ∧ totalExponent m e ≤ -149) ∨
      ∃ m' e' h', (narrow x).toModel.unpack = .finite s m' e' h' := by
  have hright : e ≤ Format.binary32.targetExponent (totalExponent m e) := by
    rw [targetExponent_binary32, totalExponent]
    rcases h.full with hfull | hleast
    · have hlog := le_log2_of_le hfull
      omega
    · omega
  have hnarrow : (narrow x).toModel =
      Float32.Model.pack (roundWithAccuracy .binary32 s m e .exact) := by
    show Float32.Model.pack (nearest .binary32 x.toModel.unpack) = _
    rw [hx, nearest, roundWithAccuracy_exact s hright]
  have he : e ≤ 75 := by
    by_contra hlarge
    exact absurd hle (Nat.not_le.mpr (units_lt_of_lt canonical_largestSingle h (by omega)))
  -- Only from the largest exponent can a carry lead out of range, and the bound excludes that.
  rcases he.lt_or_eq with hsmall | rfl
  · rcases roundWithAccuracy_cases s .exact hright with
      ⟨hround, hplace⟩ | ⟨m', e', hfits, hround, hplace, -⟩
    · left
      rw [hnarrow, hround]
      exact ⟨unpack_pack_single_zero s, hplace h.pos⟩
    · right
      refine ⟨m', e', hfits.pos, ?_⟩
      rw [hnarrow, hround]
      refine unpack_pack_single hfits s ?_
      have hlog := h.log2_le
      have hleast : Format.binary32.minExponent = -149 := rfl
      rcases hfits.full with hfull | heq
      · have hlog' : 23 ≤ m'.log2 := le_log2_of_le hfull
        rw [totalExponent, totalExponent] at hplace
        omega
      · omega
  · right
    have hm : m ≤ (2 ^ 24 - 1) * 2 ^ 29 := Nat.le_of_mul_le_mul_right hle (Nat.two_pow_pos _)
    obtain ⟨m', hfits, hround⟩ :=
      round_largest_exponent s (h.full.resolve_right (by decide)) hm
    refine ⟨m', 104, hfits.pos, ?_⟩
    rw [hnarrow, hround]
    exact unpack_pack_single hfits s le_rfl

/-! ### What single precision can hold -/

/-- Zero, or a positive number up to the largest one of single precision. -/
def WithinSingle (x : Float) : Prop :=
  x.toModel.unpack = .zero .positive ∨
    ∃ m e, ∃ h : Canonical m e, x.toModel.unpack = .finite .positive m e h.pos ∧
      units m e ≤ units ((2 ^ 24 - 1) * 2 ^ 29) 75

theorem withinSingle_of_atMost {x : Float} {t : Int} (h : AtMost x t) (ht : t ≤ 127) :
    WithinSingle x := by
  rcases h with h | ⟨m, e, hcanonical, h, hplace⟩
  · exact Or.inl h
  · refine Or.inr ⟨m, e, hcanonical, h, (units_lt_of_lt hcanonical canonical_largestSingle ?_).le⟩
    rw [totalExponent] at hplace
    rcases hcanonical.full with hfull | hleast
    · have hlog := le_log2_of_le hfull
      omega
    · omega

/-- A positive number that is not too small for single precision. -/
def AboveSingle (x : Float) : Prop :=
  ∃ m e, ∃ h : Canonical m e, x.toModel.unpack = .finite .positive m e h.pos ∧
    -149 < totalExponent m e

theorem aboveSingle_of_one_le {x : Float} {u : Nat} (h : HasUnits x u) (hone : units 1 0 ≤ u) :
    AboveSingle x := by
  obtain ⟨m, e, hcanonical, hx, rfl⟩ := h
  have he := exponent_of_one_le hcanonical hone
  refine ⟨m, e, hcanonical, hx, ?_⟩
  rw [totalExponent]
  omega

/-- A number up to the largest one of single precision becomes a finite one, with either sign. -/
theorem WithinSingle.isFinite_narrow (h : WithinSingle x) (negative : Bool) :
    Scalar.isFinite (narrow (if negative then -x else x)) = true := by
  have hfinite : Scalar.isFinite x = true := by
    rw [isFinite_eq]
    rcases h with h | ⟨m, e, hcanonical, h, -⟩ <;> rw [h] <;> rfl
  have hsigned : ∃ s, (if negative then -x else x).toModel.unpack = .zero s ∨
      ∃ m e, ∃ h : Canonical m e, (if negative then -x else x).toModel.unpack =
        .finite s m e h.pos ∧ units m e ≤ units ((2 ^ 24 - 1) * 2 ^ 29) 75 := by
    cases negative with
    | false => exact ⟨.positive, h⟩
    | true =>
      refine ⟨.negative, ?_⟩
      simp only [if_true, unpack_neg hfinite]
      rcases h with h | ⟨m, e, hcanonical, h, hle⟩
      · exact Or.inl (by rw [h]; rfl)
      · exact Or.inr ⟨m, e, hcanonical, by rw [h]; rfl, hle⟩
  obtain ⟨s, hzero | ⟨m, e, hcanonical, hx, hle⟩⟩ := hsigned
  · rw [isFinite_single_eq]
    show (Float32.Model.pack (nearest .binary32 _)).unpack.isFinite = true
    rw [hzero]
    cases s <;> rfl
  · rw [isFinite_single_eq]
    rcases narrow_cases hcanonical hx hle with ⟨hnarrow, -⟩ | ⟨m', e', h', hnarrow⟩ <;>
      rw [hnarrow] <;> rfl

theorem WithinSingle.isPositive_narrow (h : WithinSingle x) (habove : AboveSingle x) :
    Scalar.isPositive (narrow x) = true := by
  obtain ⟨m, e, hcanonical, hx, hplace⟩ := habove
  have hle : units m e ≤ units ((2 ^ 24 - 1) * 2 ^ 29) 75 := by
    rcases h with h | ⟨m', e', hcanonical', h, hle⟩
    · rw [hx] at h
      cases h
    · rw [hx] at h
      cases h
      exact hle
  rcases narrow_cases hcanonical hx hle with ⟨-, hsmall⟩ | ⟨m', e', h', hnarrow⟩
  · omega
  · exact isPositive_of_unpack hnarrow

end LayerCanvas.Binary
