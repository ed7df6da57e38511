import LayerCanvas.Proofs.Binary.Formats

/-!
Double-precision numbers as they are packed into a word and read back. What was packed comes back
with its sign. It comes back as an infinity only if its exponent was too large, and with its
exponent if its significand had the full length and its exponent was in range. Otherwise it comes
back as a zero or with the least exponent.
-/

set_option autoImplicit false
set_option relaxedAutoImplicit false

namespace LayerCanvas.Binary

open Float.Model (Format UnpackedFloat)
open Float.Model.UnpackedFloat (Sign packComponents unpackExponent unpackMantissa
  unpackSign_packComponents unpackExponent_packComponents unpackMantissa_packComponents
  Sign.ofBitVec_toBitVec)

theorem unpack_pack_infinity (s : Sign) :
    (Float.Model.pack (.infinity s)).unpack = .infinity s := by
  cases s <;> rfl

theorem unpack_pack_zero (s : Sign) : (Float.Model.pack (.zero s)).unpack = .zero s := by
  cases s <;> rfl

/-- The components of a finite number that is read from a word. -/
theorem unpack_finite_bounds {x : Float.Model} {s : Sign} {m : Nat} {e : Int} {hm : 0 < m}
    (h : x.unpack = .finite s m e hm) : m < 2 ^ 53 ∧ -1074 ≤ e ∧ (2 ^ 52 ≤ m ∨ e = -1074) := by
  obtain ⟨hfits, -⟩ := fits_of_unpack h (by decide)
  exact ⟨hfits.short, hfits.least, hfits.full⟩

theorem unpack_finite_exponent_le {x : Float.Model} {s : Sign} {m : Nat} {e : Int} {hm : 0 < m}
    (h : x.unpack = .finite s m e hm) : e ≤ 971 := by
  have hbias : (Format.binary64.exponentBias : Int) = 1023 := rfl
  obtain ⟨-, hlast⟩ := fits_of_unpack h (by decide)
  change (e + Format.binary64.exponentBias + (52 : Nat)).toNat + 1 < 2 ^ 11 at hlast
  omega

theorem unpack_least (s : Sign) (m : BitVec 52) :
    UnpackedFloat.unpack .binary64 (packComponents Format.binary64 s 0#11 m) = .zero s ∨
      ∃ m' hm', UnpackedFloat.unpack .binary64 (packComponents Format.binary64 s 0#11 m) =
        .finite s m' (-1074) hm' := by
  by_cases hm : m = 0#52
  · left
    unfold UnpackedFloat.unpack
    simp only [unpackSign_packComponents, unpackExponent_packComponents,
      unpackMantissa_packComponents, Sign.ofBitVec_toBitVec]
    simp [hm]
  · obtain ⟨hm', hunpack⟩ := unpack_least_of_ne (f := .binary64) s hm
    exact Or.inr ⟨_, hm', hunpack⟩

/-- What becomes of the components of a number that is packed into a word. -/
theorem unpack_pack_finite_cases (s : Sign) (m : Nat) (e : Int) (hm : 0 < m) :
    ((Float.Model.pack (.finite s m e hm)).unpack = .infinity s ∧ 972 ≤ e) ∨
      (((Float.Model.pack (.finite s m e hm)).unpack = .zero s ∨
        ∃ m' hm', (Float.Model.pack (.finite s m e hm)).unpack = .finite s m' (-1074) hm') ∧
          (m.log2 = 52 → e < -1074)) ∨
      ∃ m' hm', (Float.Model.pack (.finite s m e hm)).unpack = .finite s m' e hm' ∧
        2 ^ 52 ≤ m' := by
  have hbias : (Format.binary64.exponentBias : Int) = 1023 := rfl
  unfold Float.Model.unpack Float.Model.pack UnpackedFloat.pack
  simp only [hbias]
  split_ifs with hlarge hfull
  · left
    exact ⟨unpack_pack_infinity s, by omega⟩
  · right
    by_cases hleast : e < -1074
    · left
      have hzero : (e + 1023 + (52 : Nat)).toNat = 0 := by omega
      rw [hzero]
      exact ⟨unpack_least s _, fun _ ↦ hleast⟩
    · right
      set exponent := BitVec.ofNat 11 (e + 1023 + (52 : Nat)).toNat with hexponent
      have hrange : exponent.toNat = (e + 1075).toNat := by
        rw [hexponent, BitVec.toNat_ofNat, Nat.mod_eq_of_lt (by omega)]
        omega
      have hmin : exponent ≠ 0#11 := fun h ↦ by
        rw [h, BitVec.toNat_zero] at hrange
        omega
      have hmax : exponent ≠ -1#11 := fun h ↦ by
        have hlast : (-1#11).toNat = 2047 := rfl
        rw [h, hlast] at hrange
        omega
      have hbits : (Format.binary64.mantissaBitsWithoutImplicit : Int) = 52 := rfl
      have hread : (exponent.toNat : Int) - (Format.binary64.exponentBias +
          Format.binary64.mantissaBitsWithoutImplicit) = e := by omega
      obtain ⟨hm', hunpack⟩ := unpack_full (f := .binary64) s (BitVec.ofNat 52 m) hmin hmax
      simp only [hread] at hunpack
      exact ⟨_, hm', hunpack, Nat.le_add_right _ _⟩
  · right
    left
    refine ⟨unpack_least s _, fun hfull' ↦ absurd ?_ hfull⟩
    rw [hfull']
    rfl

end LayerCanvas.Binary
