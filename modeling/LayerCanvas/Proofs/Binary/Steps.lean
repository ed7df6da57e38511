import LayerCanvas.Proofs.Binary.Limits

/-!
Steps of single-precision numbers. A sum or a difference has the units of the exact one, cut to what
a word holds. Cutting keeps the order and leaves alone what a word holds, so adding something
positive does not lead down and taking it away does not lead up, though either may lead nowhere.
-/

set_option autoImplicit false
set_option relaxedAutoImplicit false

namespace LayerCanvas

namespace Binary

open Float.Model (Format UnpackedFloat)
open Float.Model.UnpackedFloat (Sign)

variable {a b : Float32}

/-! ### Sums and differences -/

theorem singleValue_pos (h : Scalar.isPositive a = true) : 0 < singleValue a := by
  obtain ⟨m, e, hm, ha⟩ := exists_of_isPositive_single h
  rw [singleValue, ha, valueIn, Sign.apply]
  exact_mod_cast unitsIn_pos .binary32 e hm

/-- What a word holds of the units of a number that a word holds. -/
theorem heldIntIn_singleValue (ha : IsNumberIn .binary32 a.toModel.unpack) :
    heldIntIn .binary32 (singleValue a) = singleValue a := heldIntIn_valueIn (by decide) ha

theorem isNumberIn_add (ha : Scalar.isFinite a = true) (hb : Scalar.isFinite b = true) :
    IsNumberIn .binary32 (a + b).toModel.unpack := by
  rw [isFinite_single_eq] at ha hb
  exact isNumberIn_single (unpack_pack_ne_notANumber (add_ne_notANumber _ ha hb))

theorem isNumberIn_sub (ha : Scalar.isFinite a = true) (hb : Scalar.isFinite b = true) :
    IsNumberIn .binary32 (a - b).toModel.unpack := by
  rw [isFinite_single_eq] at ha hb
  exact isNumberIn_single (unpack_pack_ne_notANumber (sub_ne_notANumber _ ha hb))

theorem singleValue_add (ha : Scalar.isFinite a = true) (hb : Scalar.isFinite b = true) :
    singleValue (a + b) = heldIntIn .binary32 (singleValue a + singleValue b) :=
  packedValue_add (by decide) (isNumberIn_of_isFinite ha) (isNumberIn_of_isFinite hb)
    (isFinite_single_eq a ▸ ha) (isFinite_single_eq b ▸ hb)

theorem singleValue_sub (ha : Scalar.isFinite a = true) (hb : Scalar.isFinite b = true) :
    singleValue (a - b) = heldIntIn .binary32 (singleValue a - singleValue b) :=
  packedValue_sub (by decide) (isNumberIn_of_isFinite ha) (isNumberIn_of_isFinite hb)
    (isFinite_single_eq a ▸ ha) (isFinite_single_eq b ▸ hb)

/-- Adding something positive does not lead down. -/
theorem le_add_single (ha : Scalar.isPositive a = true) (hb : Scalar.isPositive b = true) :
    a ≤ a + b := by
  have hfinite := isFinite_of_isPositive_single ha
  have hfinite' := isFinite_of_isPositive_single hb
  have hnumber := isNumberIn_of_isFinite hfinite
  have hpos := singleValue_pos hb
  rw [le_single_iff_value hnumber (isNumberIn_add hfinite hfinite'),
    singleValue_add hfinite hfinite']
  calc singleValue a = heldIntIn .binary32 (singleValue a) := (heldIntIn_singleValue hnumber).symm
    _ ≤ heldIntIn .binary32 (singleValue a + singleValue b) := heldIntIn_mono _ (by omega)

/-- Taking something positive away does not lead up. -/
theorem sub_le_single (ha : Scalar.isPositive a = true) (hb : Scalar.isPositive b = true) :
    a - b ≤ a := by
  have hfinite := isFinite_of_isPositive_single ha
  have hfinite' := isFinite_of_isPositive_single hb
  have hnumber := isNumberIn_of_isFinite hfinite
  have hpos := singleValue_pos hb
  rw [le_single_iff_value (isNumberIn_sub hfinite hfinite') hnumber,
    singleValue_sub hfinite hfinite']
  calc heldIntIn .binary32 (singleValue a - singleValue b)
      ≤ heldIntIn .binary32 (singleValue a) := heldIntIn_mono _ (by omega)
    _ = singleValue a := heldIntIn_singleValue hnumber

/-- What is equal to zero is a zero, of either sign. -/
theorem exists_unpack_zero_of_beq (h : (a == 0) = true) : ∃ s, a.toModel.unpack = .zero s := by
  have hzero : (0 : Float32).toModel.unpack = .zero .positive := rfl
  have hbeq : UnpackedFloat.beq a.toModel.unpack (0 : Float32).toModel.unpack = true := h
  rw [hzero] at hbeq
  cases ha : a.toModel.unpack with
  | zero s => exact ⟨s, rfl⟩
  | infinity s => cases s <;> simp [ha, UnpackedFloat.beq, UnpackedFloat.compare] at hbeq
  | finite s m e hm => cases s <;> simp [ha, UnpackedFloat.beq, UnpackedFloat.compare] at hbeq
  | notANumber => simp [ha, UnpackedFloat.beq, UnpackedFloat.compare] at hbeq

/-- A number that is not finite is an infinity. -/
theorem exists_infinity {f : Format} {x : UnpackedFloat} (h : IsNumberIn f x)
    (hinfinite : ¬ x.isFinite = true) : ∃ s, x = .infinity s := by
  cases h with
  | infinity s => exact ⟨s, rfl⟩
  | zero s => exact absurd rfl hinfinite
  | finite s h he => exact absurd rfl hinfinite

/-- Adding the difference of a finite number from itself leads nowhere. -/
theorem add_sub_self_single (hb : Scalar.isFinite b = true) (ha : Scalar.isNumber a = true) :
    (a + (b - b) == a) = true := by
  obtain ⟨s, hzero⟩ := exists_unpack_zero_of_beq hb
  have hnumber := isNumber_single_iff.mp ha
  have hfinite : Scalar.isFinite (b - b) = true := by
    rw [isFinite_single_eq, hzero]
    rfl
  by_cases hfinite' : Scalar.isFinite a = true
  · rw [beq_single_iff_value (isNumberIn_add hfinite' hfinite) hnumber,
      singleValue_add hfinite' hfinite]
    have hvalue : singleValue (b - b) = 0 := by rw [singleValue, hzero, valueIn]
    rw [hvalue, Int.add_zero, heldIntIn_singleValue hnumber]
  · rw [isFinite_single_eq] at hfinite'
    obtain ⟨s', hinf⟩ := exists_infinity hnumber hfinite'
    have hsum : (a + (b - b)).toModel.unpack = .infinity s' := by
      show UnpackedFloat.unpack .binary32 (UnpackedFloat.pack .binary32
        (UnpackedFloat.add .binary32 a.toModel.unpack (b - b).toModel.unpack)) = _
      rw [hinf, hzero]
      exact unpack_packedInfinity _ s'
    rw [beq_single_iff_value (by rw [hsum]; exact .infinity s') hnumber, singleValue, singleValue,
      hsum, hinf]

end Binary

open Binary

instance : Steps Float32 where
  isNumber_of_le _ _ h :=
    (isNumber_of_le_single h).imp isNumber_single_iff.mpr isNumber_single_iff.mpr
  le_of_not_lt_of_isNumber _ _ := le_single_of_not_lt
  le_trans a b c hab hbc := by
    obtain ⟨ha, hb⟩ := isNumber_of_le_single hab
    obtain ⟨-, hc⟩ := isNumber_of_le_single hbc
    rw [le_single_iff_value ha hb] at hab
    rw [le_single_iff_value hb hc] at hbc
    rw [le_single_iff_value ha hc]
    omega
  not_lt_of_le a b h := by
    obtain ⟨ha, hb⟩ := isNumber_of_le_single h
    rw [le_single_iff_value ha hb] at h
    rw [lt_single_iff_value hb ha]
    omega
  beq_of_le_of_le a b hab hba := by
    obtain ⟨ha, hb⟩ := isNumber_of_le_single hab
    rw [le_single_iff_value ha hb] at hab
    rw [le_single_iff_value hb ha] at hba
    exact (beq_single_iff_value ha hb).mpr (by omega)
  le_add _ _ := le_add_single
  sub_le _ _ := sub_le_single

end LayerCanvas
