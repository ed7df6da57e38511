import LayerCanvas.Proofs.Decimal.Digits
import Mathlib.Algebra.Order.Field.Power

/-!
The amount that digits write, and that a numeral written with them is read for. Without an exponent
a numeral shows zeros up to the point and behind it, and a fraction of zero if it has none, so the
significand can be longer than the digits; the amount is the same.
-/

set_option autoImplicit false
set_option relaxedAutoImplicit false

namespace LayerCanvas

open Digit (value)

namespace Decimal

/-- The number that digits with the place of the first one write. -/
def Digits.amount (d : Digits) : ℚ := value d.digits * 10 ^ (d.lead + 1 - d.digits.length)

/-- As many digits as identify a number. -/
structure Digits.Short (d : Digits) : Prop where
  ne_nil : d.digits ≠ []
  length_le : d.digits.length ≤ 17

/-- A numeral is read as a significand with a power of ten. -/
structure Reads (n : Numeral) (negative : Bool) (significand : Nat) (exponent : Int) : Prop where
  integer? : n.integer? = none
  decimal? : n.decimal? =
    (Numeral.scale? significand exponent).map fun f ↦ if negative then -f else f

theorem reads_of_value {n : Numeral} {significand : Nat} {exponent : Int}
    (hkind : n.fraction ≠ [] ∨ n.exponent ≠ none)
    (hvalue : value (n.whole ++ n.fraction) = significand)
    (hpower : n.power - n.fraction.length = exponent) (hlt : significand < 2 ^ 64) :
    Reads n n.negative significand exponent where
  integer? := by
    rw [Numeral.integer?, if_neg]
    tauto
  decimal? := by
    subst hvalue hpower
    exact Numeral.decimal?_eq hlt

/-- What a numeral that was written is read for. -/
structure ReadsAmount (n : Numeral) (negative : Bool) (d : Digits) (significand : Nat)
    (exponent : Int) : Prop extends Reads n negative significand exponent where
  amount_eq : (significand : ℚ) * 10 ^ exponent = d.amount
  significand_le : significand ≤ 10 ^ 17
  exponent_ge : min (d.lead - 16) (-1) ≤ exponent

variable {d : Digits}

theorem Digits.Short.value_lt (h : d.Short) : value d.digits < 10 ^ 17 :=
  (Digit.value_lt d.digits).trans_le (Nat.pow_le_pow_right (by decide) h.length_le)

/-- Zeros behind the point, up to the first digit. -/
theorem Digits.Short.reads_behind (h : d.Short) (hlead : d.lead < 0) (negative : Bool) :
    ReadsAmount
      { negative, whole := [.zero],
        fraction := List.replicate (-d.lead - 1).toNat .zero ++ d.digits }
      negative d (value d.digits) (d.lead + 1 - d.digits.length) := by
  have hlt := h.value_lt
  have hlength := h.length_le
  have hfraction : List.replicate (-d.lead - 1).toNat .zero ++ d.digits ≠ [] :=
    List.append_ne_nil_of_right_ne_nil _ h.ne_nil
  refine ⟨reads_of_value (Or.inl hfraction) ?_ ?_ (by omega), rfl, hlt.le, by omega⟩
  · rw [Digit.value_append, Digit.value_append, Digit.value_replicate_zero]
    simp [value, Digit.zero]
  · simp only [Numeral.power, List.length_append, List.length_replicate]
    omega

/-- The point between the digits. -/
theorem Digits.Short.reads_between (h : d.Short) (hlead : 0 ≤ d.lead) {places : Nat}
    (hplaces : places = d.lead.toNat + 1) (hshort : places < d.digits.length) (negative : Bool) :
    ReadsAmount { negative, whole := d.digits.take places, fraction := d.digits.drop places }
      negative d (value d.digits) (d.lead + 1 - d.digits.length) := by
  have hlt := h.value_lt
  have hlength := h.length_le
  have hfraction : d.digits.drop places ≠ [] := by
    rw [ne_eq, List.drop_eq_nil_iff]
    omega
  refine ⟨reads_of_value (Or.inl hfraction) ?_ ?_ (by omega), rfl, hlt.le, by omega⟩
  · rw [List.take_append_drop]
  · simp only [Numeral.power, List.length_drop]
    omega

/-- Zeros up to the point, and one behind it. -/
theorem Digits.Short.reads_before (h : d.Short) (hlead : 0 ≤ d.lead) (hhigh : d.lead ≤ 15)
    {zeros : Nat} (hzeros : zeros + d.digits.length = d.lead.toNat + 1) (negative : Bool) :
    ReadsAmount { negative, whole := d.digits ++ List.replicate zeros .zero, fraction := [.zero] }
      negative d (value d.digits * 10 ^ (zeros + 1)) (-1) := by
  have hlength := h.length_le
  have hvalue : value (d.digits ++ List.replicate zeros .zero ++ [.zero]) =
      value d.digits * 10 ^ (zeros + 1) := by
    rw [Digit.value_append, Digit.value_append, Digit.value_replicate_zero,
      List.length_replicate, Nat.pow_succ]
    simp [value, Digit.zero, Nat.mul_assoc]
  have hle : value d.digits * 10 ^ (zeros + 1) ≤ 10 ^ 17 := by
    calc value d.digits * 10 ^ (zeros + 1)
        ≤ 10 ^ d.digits.length * 10 ^ (zeros + 1) :=
          Nat.mul_le_mul_right _ (Digit.value_lt d.digits).le
      _ = 10 ^ (d.digits.length + (zeros + 1)) := (Nat.pow_add _ _ _).symm
      _ ≤ 10 ^ 17 := Nat.pow_le_pow_right (by decide) (by omega)
  refine ⟨reads_of_value (Or.inl (List.cons_ne_nil _ _)) hvalue rfl (by omega), ?_, hle, by omega⟩
  have hpower : (zeros + 1 : Nat) + (-1 : Int) = d.lead + 1 - d.digits.length := by omega
  rw [amount, ← hpower, zpow_add₀ (by norm_num), zpow_natCast]
  push_cast
  ring

/-- The digits with the point in its place, and with a fraction in any case. -/
theorem Digits.Short.reads_plain (h : d.Short) (hlead : d.lead ≤ 15) (negative : Bool) :
    ∃ significand exponent, ReadsAmount
      { negative, whole := d.plain.1, fraction := if d.plain.2 = [] then [.zero] else d.plain.2 }
      negative d significand exponent := by
  by_cases hneg : d.lead < 0
  · have hfraction : List.replicate (-d.lead - 1).toNat .zero ++ d.digits ≠ [] :=
      List.append_ne_nil_of_right_ne_nil _ h.ne_nil
    rw [plain, if_pos hneg, if_neg hfraction]
    exact ⟨_, _, h.reads_behind hneg negative⟩
  · set places := d.lead.toNat + 1 with hplaces
    have hplain : d.plain =
        (d.digits.take places ++ List.replicate (places - d.digits.length) .zero,
          d.digits.drop places) := by
      rw [plain, if_neg hneg]
    rw [hplain]
    rcases Nat.lt_or_ge places d.digits.length with hshort | hlong
    · have hfraction : d.digits.drop places ≠ [] := by
        rw [ne_eq, List.drop_eq_nil_iff]
        omega
      rw [if_neg hfraction, show places - d.digits.length = 0 by omega, List.replicate_zero,
        List.append_nil]
      exact ⟨_, _, h.reads_between (by omega) hplaces hshort negative⟩
    · rw [if_pos (List.drop_eq_nil_iff.mpr hlong), List.take_of_length_le hlong]
      exact ⟨_, _, h.reads_before (by omega) hlead (by omega) negative⟩

/-- The digits with an exponent. -/
theorem Digits.Short.reads_scientific (h : d.Short) (negative : Bool) :
    ∃ significand exponent, ReadsAmount
      { negative, whole := d.digits.take 1, fraction := d.digits.drop 1,
        exponent := some ⟨d.lead < 0, Digit.ofNat d.lead.natAbs⟩ }
      negative d significand exponent := by
  have hlt := h.value_lt
  have hlength := h.length_le
  have hpos : 0 < d.digits.length := List.length_pos_of_ne_nil h.ne_nil
  refine ⟨value d.digits, d.lead + 1 - d.digits.length,
    ⟨reads_of_value (Or.inr nofun) ?_ ?_ (by omega), rfl, hlt.le, by omega⟩⟩
  · rw [List.take_append_drop]
  · simp only [Numeral.power, List.length_drop, Digit.value_ofNat, decide_eq_true_eq]
    split_ifs <;> omega

/-- A numeral of a document is read for the amount of its digits. -/
theorem Layout.IsPlainNearOne.reads {layout : Layout} (hlayout : layout.IsPlainNearOne)
    (hfraction : layout.showsFraction = true) (h : d.Short) (negative : Bool) :
    ∃ significand exponent,
      ReadsAmount (layout.numeral negative d) negative d significand exponent := by
  obtain ⟨low, high, hplain, -, -, hle⟩ := hlayout
  simp only [numeral, hplain, Option.all_some, Bool.and_eq_true, decide_eq_true_eq, hfraction,
    and_true]
  by_cases hrange : low ≤ d.lead ∧ d.lead ≤ high
  · rw [if_pos hrange]
    exact h.reads_plain (hrange.2.trans hle) negative
  · rw [if_neg hrange]
    exact h.reads_scientific negative

end Decimal

end LayerCanvas
