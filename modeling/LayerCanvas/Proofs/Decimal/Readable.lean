import LayerCanvas.Json.Basic
import LayerCanvas.Proofs.Decimal.Interval

/-!
Every finite number is read again from the numeral that is written for it, though not always as the
same number. Near the largest number the digits decide whether there is a result at all, and near
the least one whether it is zero, so the numbers at the two ends are tried one by one. In between
the digits lie close enough to the number for all that rounding can do.
-/

set_option autoImplicit false
set_option relaxedAutoImplicit false

namespace LayerCanvas

open Float.Model (Format UnpackedFloat totalExponent)
open Float.Model.UnpackedFloat (Sign)
open Binary

namespace Decimal

/-! ### The interval of a binary number -/

namespace Reach

variable {f : Format} {m : Nat} {e : Int}

theorem ofFinite_unit_pos (f : Format) (m : Nat) (e : Int) : 0 < (ofFinite f m e).unit := by
  simp [ofFinite, Nat.shiftLeft_eq]

theorem ofFinite_scale (e : Int) (n : Nat) :
    ((n * 1 <<< (e - 2).toNat : Nat) : ℚ) = n * 2 ^ (e - 2) * (1 <<< (2 - e).toNat : Nat) := by
  rw [Nat.shiftLeft_eq, Nat.shiftLeft_eq, Nat.one_mul, Nat.one_mul]
  push_cast
  rw [zpow_eq_div (by norm_num : (2 : ℚ) ≠ 0), show -(e - 2) = 2 - e by ring]
  field_simp

theorem ofFinite_high (f : Format) (m : Nat) (e : Int) :
    ((ofFinite f m e).high : ℚ) = (4 * m + 2) * 2 ^ (e - 2) * (ofFinite f m e).unit := by
  have h := ofFinite_scale e (4 * m + 2)
  push_cast at h
  exact_mod_cast h

theorem ofFinite_low (f : Format) (hm : 0 < m) (e : Int) :
    (m : ℚ) * 2 ^ (e - 1) * (ofFinite f m e).unit ≤ (ofFinite f m e).low := by
  have h := ofFinite_scale e (2 * m)
  have hpower : (2 : ℚ) ^ (e - 1) = 2 * 2 ^ (e - 2) := by
    rw [show e - 1 = 1 + (e - 2) by ring, zpow_add₀ (by norm_num), zpow_one]
  have hlow : 2 * m * 1 <<< (e - 2).toNat ≤ (ofFinite f m e).low := by
    refine Nat.mul_le_mul_right _ ?_
    split_ifs <;> omega
  have hlow' : ((2 * m * 1 <<< (e - 2).toNat : Nat) : ℚ) ≤ (ofFinite f m e).low := mod_cast hlow
  rw [h] at hlow'
  rw [hpower]
  push_cast at hlow'
  calc (m : ℚ) * (2 * 2 ^ (e - 2)) * (ofFinite f m e).unit
      = 2 * m * 2 ^ (e - 2) * (ofFinite f m e).unit := by ring
    _ ≤ (ofFinite f m e).low := by exact_mod_cast hlow'

theorem amount_ofFinite_le (f : Format) (m : Nat) (e : Int) (tie : Tie) :
    ((ofFinite f m e).shortest tie).amount ≤ (4 * m + 2) * 2 ^ (e - 2) := by
  have hpos : (0 : ℚ) < (ofFinite f m e).unit := mod_cast ofFinite_unit_pos f m e
  refine le_of_mul_le_mul_right ?_ hpos
  rw [← ofFinite_high]
  exact amount_shortest_le _ tie

end Reach

/-- All but the largest number of a format stay below the end of the reals that round to the largest
but one. -/
theorem high_le {p m : Nat} {e top : Int} (hp : 2 ≤ p) (hm : m < 2 ^ p) (he : e ≤ top)
    (hlast : e = top → m + 1 < 2 ^ p) :
    (4 * m + 2 : ℚ) * 2 ^ (e - 2) ≤ (2 ^ (p + 1) - 3) * 2 ^ (top - 1) := by
  have hfour : (2 : ℚ) ^ 2 ≤ 2 ^ p := pow_le_pow_right₀ (by norm_num) hp
  have hstep (k : Int) : (2 : ℚ) ^ (k + 1) = 2 * 2 ^ k := by
    rw [add_comm, zpow_add₀ (by norm_num), zpow_one]
  rcases he.eq_or_lt with rfl | hless
  · have hm' : (m + 2 : ℚ) ≤ 2 ^ p := by exact_mod_cast hlast rfl
    calc (4 * m + 2 : ℚ) * 2 ^ (e - 2) ≤ (4 * 2 ^ p - 6) * 2 ^ (e - 2) :=
          mul_le_mul_of_nonneg_right (by linarith) (by positivity)
      _ = (2 ^ (p + 1) - 3) * 2 ^ (e - 1) := by
        rw [show e - 1 = e - 2 + 1 by ring, hstep]
        ring
  · have hm' : (m + 1 : ℚ) ≤ 2 ^ p := by exact_mod_cast hm
    calc (4 * m + 2 : ℚ) * 2 ^ (e - 2) ≤ (8 * 2 ^ p - 12) * 2 ^ (top - 3) :=
          mul_le_mul (by linarith) (zpow_le_zpow_right₀ (by norm_num) (by omega)) (by positivity)
            (by linarith)
      _ = (2 ^ (p + 1) - 3) * 2 ^ (top - 1) := by
        rw [show top - 1 = top - 3 + 1 + 1 by ring, hstep, hstep]
        ring

/-! ### Double precision -/

theorem Digits.short_zero : Digits.Short ⟨[.zero], 0⟩ := ⟨by simp, by simp⟩

theorem Digits.amount_zero : Digits.amount ⟨[.zero], 0⟩ = 0 := by
  have hzero : Digit.value [.zero] = 0 := rfl
  rw [amount, hzero, Nat.cast_zero, zero_mul]

/-- An amount without a negative power of ten as a natural number. -/
theorem mul_le_of_amount_le {n bound : Nat} {exponent : Int} (hexponent : 0 ≤ exponent)
    (h : (n : ℚ) * 10 ^ exponent ≤ bound) : n * 10 ^ exponent.toNat ≤ bound := by
  rw [← Int.toNat_of_nonneg hexponent, zpow_natCast] at h
  exact_mod_cast h

theorem boundDouble_eq : (Numeral.boundDouble : ℚ) = (2 ^ (53 + 1) - 3) * 2 ^ (971 - 1 : Int) := by
  rw [Numeral.boundDouble, Nat.cast_mul, Nat.cast_pow, ← zpow_natCast]
  norm_num

/-- Digits that stay below the largest double are read. -/
theorem Digits.Short.toFloat?_double {d : Digits} (h : d.Short)
    (hle : d.amount ≤ Numeral.boundDouble) (negative : Bool) :
    ∃ x, (Layout.double.numeral negative d).toFloat? = some x := by
  obtain ⟨significand, exponent, hreads⟩ := Layout.isPlainNearOne_double.reads rfl h negative
  have hdigits := hreads.significand_le
  obtain ⟨x, hx⟩ := Numeral.exists_scale?_double (by omega) fun hexponent ↦
    ⟨hdigits, mul_le_of_amount_le hexponent (hreads.amount_eq ▸ hle)⟩
  rw [Numeral.toFloat?, hreads.integer?, hreads.decimal?, hx]
  exact ⟨_, rfl⟩

theorem largest_double_read (s : Sign) :
    ((Layout.double.write? .binary64 (.finite s (2 ^ 53 - 1) 971 (by decide))).bind
      Numeral.toFloat?).isSome = true := by
  cases s <;> decide +kernel

theorem toFloat?_write?_double {u : UnpackedFloat} (h : IsNumber u) (hfinite : u.isFinite = true) :
    ∃ x, (Layout.double.write? .binary64 u).bind Numeral.toFloat? = some x := by
  cases h with
  | infinity s => cases hfinite
  | zero s =>
    exact Digits.short_zero.toFloat?_double (by rw [Digits.amount_zero]; exact Nat.cast_nonneg _) _
  | @finite s m e h he =>
    by_cases hlast : e = 971 ∧ m = 2 ^ 53 - 1
    · obtain ⟨rfl, rfl⟩ := hlast
      exact Option.isSome_iff_exists.mp (largest_double_read s)
    · refine (Reach.short_shortest _ _).toFloat?_double ?_ _
      rw [boundDouble_eq]
      have hshort := h.short
      exact (Reach.amount_ofFinite_le _ _ _ _).trans
        (high_le (by decide) hshort he (by omega))

/-! ### Single precision -/

theorem boundSingle_eq : (Numeral.boundSingle : ℚ) = (2 ^ (24 + 1) - 3) * 2 ^ (104 - 1 : Int) := by
  rw [Numeral.boundSingle, Nat.cast_mul, Nat.cast_pow, ← zpow_natCast]
  norm_num

/-- Digits that stay below the largest single-precision number are read as a finite number, and as a
positive one if they are positive and not too small. -/
theorem Digits.Short.toFloat32?_single {d : Digits} (h : d.Short)
    (hle : d.amount ≤ Numeral.boundSingle) (negative : Bool) :
    ∃ x, (Layout.single.numeral negative d).toFloat32? = some x ∧ Scalar.isFinite x = true ∧
      (negative = false → (2 : ℚ) ^ (-147 : Int) ≤ d.amount → -280 ≤ d.lead →
        Scalar.isPositive x = true) := by
  obtain ⟨significand, exponent, hreads⟩ := Layout.isPlainNearOne_single.reads rfl h negative
  have hdigits := hreads.significand_le
  obtain ⟨x, hx, hwithin, habove⟩ := Numeral.exists_scale?_single (by omega) fun hexponent ↦
    ⟨hdigits, mul_le_of_amount_le hexponent (hreads.amount_eq ▸ hle)⟩
  rw [Numeral.toFloat32?, hreads.integer?, hreads.decimal?, hx]
  refine ⟨_, rfl, hwithin.isFinite_narrow negative, fun hpositive hlow hlead ↦ ?_⟩
  subst hpositive
  have hamount : (0 : ℚ) < d.amount := lt_of_lt_of_le (by positivity) hlow
  have hpos : 0 < significand := by
    rw [← hreads.amount_eq] at hamount
    by_contra hzero
    rw [show significand = 0 by omega, Nat.cast_zero, zero_mul] at hamount
    exact lt_irrefl _ hamount
  have hrange := hreads.exponent_ge
  refine hwithin.isPositive_narrow (habove hpos fun hexponent ↦ ⟨by omega, ?_⟩)
  -- The power of ten goes to the other side.
  have hpower : (10 : ℚ) ^ (-exponent).toNat * 10 ^ exponent = 1 := by
    rw [← zpow_natCast, ← zpow_add₀ (by norm_num), Int.toNat_of_nonneg (by omega), neg_add_cancel,
      zpow_zero]
  have htwo : (2 : ℚ) ^ (-147 : Int) * 2 ^ 147 = 1 := by norm_num
  have hle' : (10 : ℚ) ^ (-exponent).toNat ≤ significand * 2 ^ 147 := by
    calc (10 : ℚ) ^ (-exponent).toNat
        = 10 ^ (-exponent).toNat * (2 ^ (-147 : Int) * 2 ^ 147) := by rw [htwo, mul_one]
      _ ≤ 10 ^ (-exponent).toNat * (significand * 10 ^ exponent * 2 ^ 147) := by
        rw [hreads.amount_eq]
        gcongr
      _ = significand * 2 ^ 147 * (10 ^ (-exponent).toNat * 10 ^ exponent) := by ring
      _ = significand * 2 ^ 147 := by rw [hpower, mul_one]
  exact_mod_cast hle'

theorem largest_single_read (s : Sign) :
    ((Layout.single.write? .binary32 (.finite s (2 ^ 24 - 1) 104 (by decide))).bind
      Numeral.toFloat32?).any Scalar.isFinite = true := by
  cases s <;> decide +kernel

theorem toFloat32?_write?_single {s : Sign} {m : Nat} {e : Int} (h : Fits .binary32 m e)
    (he : e ≤ 104) :
    ∃ x, (Layout.single.write? .binary32 (.finite s m e h.pos)).bind Numeral.toFloat32? = some x ∧
      Scalar.isFinite x = true := by
  by_cases hlast : e = 104 ∧ m = 2 ^ 24 - 1
  · obtain ⟨rfl, rfl⟩ := hlast
    exact (Option.any_eq_true _ _).mp (largest_single_read s)
  · have hshort : m < 2 ^ 24 := h.short
    obtain ⟨x, hx, hfinite, -⟩ := (Reach.short_shortest _ _).toFloat32?_single
      (boundSingle_eq ▸ (Reach.amount_ofFinite_le _ _ _ _).trans
        (high_le (by decide) hshort he (by omega))) (isMinus s)
    exact ⟨x, hx, hfinite⟩

/-! ### Positive numbers in single precision -/

theorem least_single_read : ∀ m : Fin 7,
    ((Layout.single.write? .binary32 (.finite .positive (m + 1) (-149) (Nat.succ_pos _))).bind
      Numeral.toFloat32?).any Scalar.isPositive = true := by
  decide +kernel

theorem largest_single_positive :
    ((Layout.single.write? .binary32 (.finite .positive (2 ^ 24 - 1) 104 (by decide))).bind
      Numeral.toFloat32?).any Scalar.isPositive = true := by
  decide +kernel

namespace Reach

variable {m : Nat} {e : Int}

theorem wide_ofFinite (h : Fits .binary32 m e) : (ofFinite .binary32 m e).Wide := by
  have hm : m < 2 ^ 24 := h.short
  have hpos := h.pos
  have hscale : 0 < 1 <<< (e - 2).toNat := by simp [Nat.shiftLeft_eq]
  refine ⟨?_, Nat.mul_lt_mul_of_pos_right (by omega) hscale⟩
  simp only [ofFinite]
  rw [Nat.mul_right_comm, ← Nat.add_mul, Nat.mul_right_comm (4 * m)]
  refine Nat.mul_lt_mul_of_pos_right ?_ hscale
  split_ifs <;> omega

theorem log2_ofFinite (f : Format) (hm : 0 < m) (e : Int) :
    ((ofFinite f m e).value.log2 : Int) - (ofFinite f m e).unit.log2 = m.log2 + e := by
  have hvalue : (ofFinite f m e).value = m * 2 ^ 2 * 2 ^ (e - 2).toNat := by
    simp only [ofFinite, Nat.shiftLeft_eq]
    ring
  have hunit : (ofFinite f m e).unit = 2 ^ (2 - e).toNat := by
    simp only [ofFinite, Nat.shiftLeft_eq, Nat.one_mul]
  rw [hvalue, hunit, log2_mul_two_pow (by positivity), log2_mul_two_pow hm.ne', Nat.log2_two_pow]
  omega

/-- The digits of a number that is not too small are not too small either. -/
theorem le_amount_ofFinite (h : Fits .binary32 m e) (he : e ≤ 104) (tie : Tie) :
    (m : ℚ) * 2 ^ (e - 1) ≤ ((ofFinite .binary32 m e).shortest tie).amount ∧
      -280 ≤ ((ofFinite .binary32 m e).shortest tie).lead := by
  have hlog := log2_ofFinite .binary32 h.pos e
  have hlog' : m.log2 < 24 := log2_lt_of_lt (by decide) h.short
  have hleast : -149 ≤ e := h.least
  obtain ⟨hamount, hlead⟩ := low_le_amount (isBinary_ofFinite .binary32 e h.pos.ne')
    (wide_ofFinite h) (by omega) (by omega) tie
  have hunit : (0 : ℚ) < (ofFinite .binary32 m e).unit := mod_cast ofFinite_unit_pos _ m e
  refine ⟨le_of_mul_le_mul_right ((ofFinite_low _ h.pos e).trans hamount) hunit, ?_⟩
  rw [lead_eq, guess] at hlead
  split_ifs at hlead <;> omega

end Reach

theorem isPositive_write?_single {m : Nat} {e : Int} (h : Fits .binary32 m e) (he : e ≤ 104) :
    ∃ x, (Layout.single.write? .binary32 (.finite .positive m e h.pos)).bind Numeral.toFloat32? =
      some x ∧ Scalar.isPositive x = true := by
  have hshort : m < 2 ^ 24 := h.short
  have hpos := h.pos
  by_cases hlast : e = 104 ∧ m = 2 ^ 24 - 1
  · obtain ⟨rfl, rfl⟩ := hlast
    exact (Option.any_eq_true _ _).mp largest_single_positive
  by_cases hfirst : e = -149 ∧ m < 8
  · obtain ⟨rfl, hm⟩ := hfirst
    obtain ⟨i, rfl⟩ : ∃ i : Fin 7, m = i + 1 := ⟨⟨m - 1, by omega⟩, by simp; omega⟩
    exact (Option.any_eq_true _ _).mp (least_single_read i)
  obtain ⟨hamount, hlead⟩ := Reach.le_amount_ofFinite h he .even
  obtain ⟨x, hx, -, hpositive⟩ := (Reach.short_shortest _ _).toFloat32?_single
    (boundSingle_eq ▸ (Reach.amount_ofFinite_le _ _ _ _).trans
      (high_le (by decide) hshort he (by omega))) false
  refine ⟨x, hx, hpositive rfl (le_trans ?_ hamount) hlead⟩
  have hleast : -149 ≤ e := h.least
  have hlong : 8 ≤ m := by
    rcases h.full with hfull | heq
    · exact le_trans (by decide) hfull
    · exact Nat.le_of_not_lt fun hm ↦ hfirst ⟨heq, hm⟩
  calc (2 : ℚ) ^ (-147 : Int) = 8 * 2 ^ (-150 : Int) := by norm_num
    _ ≤ m * 2 ^ (e - 1) :=
      mul_le_mul (by exact_mod_cast hlong) (zpow_le_zpow_right₀ (by norm_num) (by omega))
        (by positivity) (by positivity)

end Decimal

/-! ### Values of a document -/

namespace Json

theorem exists_toFloat? {x : Float} (h : Scalar.isFinite x = true) :
    ∃ y, (ofFloat x).toFloat? = some y := by
  obtain ⟨y, hy⟩ := Decimal.toFloat?_write?_double (isNumber_of_isFinite h) (isFinite_eq x ▸ h)
  obtain ⟨n, hn, hread⟩ := Option.bind_eq_some_iff.mp hy
  refine ⟨y, ?_⟩
  rw [ofFloat, Decimal.ofFloat?, hn]
  exact hread

theorem exists_toFloat32? {x : Float32} (h : Scalar.isFinite x = true) :
    ∃ y, (ofFloat32 x).toFloat32? = some y ∧ Scalar.isFinite y = true ∧
      (Scalar.isPositive x = true → Scalar.isPositive y = true) := by
  have hunpacked := isFinite_single_eq x ▸ h
  have hread {y : Float32} (hy : (Decimal.Layout.single.write? .binary32 x.toModel.unpack).bind
      Numeral.toFloat32? = some y) : (ofFloat32 x).toFloat32? = some y := by
    obtain ⟨n, hn, hn'⟩ := Option.bind_eq_some_iff.mp hy
    rw [ofFloat32, Decimal.ofFloat32?, hn]
    exact hn'
  by_cases hpositive : Scalar.isPositive x = true
  · obtain ⟨m, e, hm, hx⟩ := exists_of_isPositive_single hpositive
    obtain ⟨hfits, he⟩ := fits_of_unpack_single hx
    obtain ⟨y, hy, hpositive'⟩ := Decimal.isPositive_write?_single hfits he
    exact ⟨y, hread (hx ▸ hy), (Bool.and_eq_true_iff.mp hpositive').1, fun _ ↦ hpositive'⟩
  · cases hx : x.toModel.unpack with
    | notANumber => simp [hx, UnpackedFloat.isFinite] at hunpacked
    | infinity s => simp [hx, UnpackedFloat.isFinite] at hunpacked
    | zero s =>
      obtain ⟨y, hy, hfinite, -⟩ := Decimal.Digits.short_zero.toFloat32?_single
        (by rw [Decimal.Digits.amount_zero]; exact Nat.cast_nonneg _) (Decimal.isMinus s)
      exact ⟨y, hread (hx ▸ hy), hfinite, fun hpositive' ↦ absurd hpositive' hpositive⟩
    | finite s m e hm =>
      obtain ⟨hfits, he⟩ := fits_of_unpack_single hx
      obtain ⟨y, hy, hfinite⟩ := Decimal.toFloat32?_write?_single hfits he
      exact ⟨y, hread (hx ▸ hy), hfinite, fun hpositive' ↦ absurd hpositive' hpositive⟩

end Json

end LayerCanvas
