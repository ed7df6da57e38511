import LayerCanvas.Decimal.Layout
import Mathlib.Data.List.TakeWhile
import Mathlib.Data.Nat.Log
import Mathlib.Tactic.IntervalCases

/-!
The numerals of a document are well formed: there are digits before the point, of which the first
is zero only if it stands alone, and there are digits in the exponent. A number of ten or more that
is written without an exponent begins with its first digit, so the place of that digit must be found
exactly. The binary exponent of the number gives a guess that is off by at most one, and two
comparisons correct it.
-/

set_option autoImplicit false
set_option relaxedAutoImplicit false

namespace LayerCanvas

open Float.Model (Format UnpackedFloat)
open Decimal

/-- What makes a numeral one of JSON. -/
structure Numeral.WellFormed (n : Numeral) : Prop where
  whole_ne_nil : n.whole ≠ []
  zero_alone : n.whole.head? = some .zero → n.whole = [.zero]
  exponent_ne_nil : ∀ e ∈ n.exponent, e.digits ≠ []

theorem tenTo_eq (k : Nat) : tenTo k = 10 ^ k := rfl

namespace Digit

@[simp] theorem length_last (count n : Nat) : (last count n).length = count := by simp [last]

/-- The first digit of a number of so many digits is not zero. -/
theorem head?_last_ne_zero {count n : Nat} (hle : 10 ^ count ≤ n) (hlt : n < 10 ^ (count + 1)) :
    (last (count + 1) n).head? ≠ some zero := by
  have hpos : 1 ≤ n / 10 ^ count := (Nat.one_le_div_iff (by positivity)).mpr hle
  have hten : n / 10 ^ count < 10 := Nat.div_lt_of_lt_mul (by rwa [← pow_succ])
  intro h
  simp only [last, List.range_succ_eq_map, List.map_cons, List.head?_cons, Option.some.injEq,
    zero, Fin.mk.injEq, tenTo_eq, Nat.add_sub_cancel, Nat.sub_zero] at h
  omega

/-- The digits that are tried for a number are enough: three bits are less than a digit. -/
theorem lt_ten_pow (n : Nat) : n < 10 ^ (n.log2 / 3 + 1) :=
  calc n < 2 ^ (n.log2 + 1) := Nat.lt_log2_self
    _ ≤ 2 ^ (3 * (n.log2 / 3 + 1)) := Nat.pow_le_pow_right (by decide) (by omega)
    _ = (2 ^ 3) ^ (n.log2 / 3 + 1) := pow_mul ..
    _ ≤ 10 ^ (n.log2 / 3 + 1) := Nat.pow_le_pow_left (by decide) _

/-- A number that is not zero has digits. -/
theorem ofNat_ne_nil {n : Nat} (h : n ≠ 0) : ofNat n ≠ [] := by
  intro hnil
  have hplace : Nat.log 10 n < n.log2 / 3 + 1 := Nat.log_lt_of_lt_pow h (lt_ten_pow n)
  have hpos : 1 ≤ n / 10 ^ Nat.log 10 n :=
    (Nat.one_le_div_iff (by positivity)).mpr (Nat.pow_log_le_self 10 h)
  have hten : n / 10 ^ Nat.log 10 n < 10 :=
    Nat.div_lt_of_lt_mul (by rw [← pow_succ]; exact Nat.lt_pow_succ_log_self (by decide) n)
  -- The digit at the place of the largest power of ten below the number is not zero.
  have hall : ∀ d ∈ last (n.log2 / 3 + 1) n, d = zero := by
    simpa [ofNat, List.dropWhile_eq_nil_iff] using hnil
  have hdigit := hall _ (List.mem_map_of_mem
    (List.mem_range.mpr (show n.log2 / 3 + 1 - 1 - Nat.log 10 n < n.log2 / 3 + 1 by omega)))
  simp only [zero, Fin.mk.injEq, tenTo_eq] at hdigit
  rw [show n.log2 / 3 + 1 - 1 - (n.log2 / 3 + 1 - 1 - Nat.log 10 n) = Nat.log 10 n by omega]
    at hdigit
  omega

end Digit

namespace Decimal

/-- Digits that may be written out: there are some, and they begin with no zero if the first one
stands more than one place before the point. This is said of numbers below ten to the sixteenth. -/
structure Digits.Leading (d : Digits) : Prop where
  ne_nil : d.digits ≠ []
  head_ne_zero : 0 < d.lead → d.lead ≤ 15 → d.digits.head? ≠ some .zero

namespace Reach

/-- A positive number in units of a power of two, as those of a binary format are. -/
structure IsBinary (r : Reach) : Prop where
  value_ne_zero : r.value ≠ 0
  unit_eq : ∃ j, r.unit = 2 ^ j

theorem isBinary_ofFinite (format : Format) {significand : Nat} (exponent : Int)
    (h : significand ≠ 0) : (ofFinite format significand exponent).IsBinary where
  value_ne_zero := by simp [ofFinite, Nat.shiftLeft_eq, h]
  unit_eq := ⟨(2 - exponent).toNat, by simp [ofFinite, Nat.shiftLeft_eq]⟩

/-- The exponent of ten that is tried first. -/
def guess (r : Reach) : Int := ((r.value.log2 : Int) - r.unit.log2) * 30103 / 100000

/-- Whether the number is at least a power of ten. -/
def AtLeast (r : Reach) (k : Int) : Prop := r.unit * tenTo k.toNat ≤ r.value * tenTo (-k).toNat

instance (r : Reach) (k : Int) : Decidable (r.AtLeast k) := inferInstanceAs (Decidable (_ ≤ _))

theorem atLeast_iff {r : Reach} {k : Int} (h : 0 ≤ k) :
    r.AtLeast k ↔ r.unit * 10 ^ k.toNat ≤ r.value := by
  simp [AtLeast, tenTo_eq, show (-k).toNat = 0 by omega]

theorem lead_eq (r : Reach) :
    r.lead = if r.AtLeast (r.guess + 1) then r.guess + 1
      else if r.AtLeast r.guess then r.guess else r.guess - 1 := by
  simp only [lead, decide_eq_true_eq]
  rfl

/-- The guess is off by at most one. -/
theorem guess_bounds (d : Int) (hlow : -4 ≤ d) (hhigh : d ≤ 60) :
    10 ^ (d * 30103 / 100000 - 1).toNat ≤ 2 ^ d.toNat ∧
      2 ^ (d + 1).toNat ≤ 10 ^ (d * 30103 / 100000 + 2).toNat := by
  interval_cases d <;> decide

/-- The exponent of the first digit, for numbers from one to below ten to the sixteenth. -/
theorem lead_spec {r : Reach} (h : r.IsBinary) (hlow : 0 ≤ r.lead) (hhigh : r.lead ≤ 15) :
    r.unit * 10 ^ r.lead.toNat ≤ r.value ∧ r.value < r.unit * 10 ^ (r.lead.toNat + 1) := by
  obtain ⟨j, hunit⟩ := h.unit_eq
  have hlog : r.unit.log2 = j := by rw [hunit, Nat.log2_two_pow]
  have hself : 2 ^ r.value.log2 ≤ r.value := Nat.log2_self_le h.value_ne_zero
  have hnext : r.value < 2 ^ (r.value.log2 + 1) := Nat.lt_log2_self
  -- The distance of the binary exponents of the number and of the unit.
  obtain ⟨d, hd⟩ : ∃ d : Int, d = (r.value.log2 : Int) - j := ⟨_, rfl⟩
  have hguess : r.guess = d * 30103 / 100000 := by rw [guess, hlog, hd]
  have hnear : r.guess - 1 ≤ r.lead ∧ r.lead ≤ r.guess + 1 := by
    rw [lead_eq]
    split_ifs <;> omega
  obtain ⟨hbelow, habove⟩ := guess_bounds d (by omega) (by omega)
  rw [← hguess] at hbelow habove
  have hlow' : 0 ≤ d → r.unit * 10 ^ (r.guess - 1).toNat ≤ r.value := fun hpos ↦
    calc r.unit * 10 ^ (r.guess - 1).toNat ≤ 2 ^ j * 2 ^ d.toNat := by
          rw [hunit]; exact Nat.mul_le_mul_left _ hbelow
      _ = 2 ^ r.value.log2 := by rw [← pow_add]; congr 1; omega
      _ ≤ r.value := hself
  have hhigh' : r.value < r.unit * 10 ^ (r.guess + 2).toNat :=
    calc r.value < 2 ^ (r.value.log2 + 1) := hnext
      _ ≤ 2 ^ (j + (d + 1).toNat) := Nat.pow_le_pow_right (by decide) (by omega)
      _ = 2 ^ j * 2 ^ (d + 1).toNat := pow_add ..
      _ ≤ r.unit * 10 ^ (r.guess + 2).toNat := by rw [hunit]; exact Nat.mul_le_mul_left _ habove
  rw [lead_eq] at hlow hhigh ⊢
  split_ifs at hlow hhigh ⊢ with hone hzero
  · refine ⟨(atLeast_iff hlow).mp hone, ?_⟩
    rwa [show (r.guess + 1).toNat + 1 = (r.guess + 2).toNat by omega]
  · refine ⟨(atLeast_iff hlow).mp hzero, ?_⟩
    rw [atLeast_iff (by omega), not_le] at hone
    rwa [show r.guess.toNat + 1 = (r.guess + 1).toNat by omega]
  · refine ⟨hlow' (by omega), ?_⟩
    rw [atLeast_iff (by omega), not_le] at hzero
    rwa [show (r.guess - 1).toNat + 1 = r.guess.toNat by omega]

theorem neighbour?_cases {r : Reach} {tie : Tie} {n : Nat} (h : r.neighbour? tie = some n) :
    n = r.value / r.unit ∨ n = r.value / r.unit + 1 := by
  simp only [neighbour?] at h
  split at h
  · split at h
    · exact .inl (Option.some.inj h).symm
    · exact .inr (Option.some.inj h).symm
    · rw [Option.some.injEq] at h
      split_ifs at h
      · exact .inl h.symm
      · exact .inr h.symm
  · exact .inl (Option.some.inj h).symm
  · exact .inr (Option.some.inj h).symm
  · cases h

/-- On the grid of so many digits from the first one down, the number lies between two powers of
ten. -/
theorem steps_spec {r : Reach} {k : Nat} (hlow : r.unit * 10 ^ k ≤ r.value)
    (hhigh : r.value < r.unit * 10 ^ (k + 1)) (count : Nat) :
    let s := r.inSteps (k - (count + 1 : Nat) + 1)
    10 ^ count ≤ s.value / s.unit ∧ s.value / s.unit < 10 ^ (count + 1) := by
  intro s
  have hvalue : s.value = r.value * 10 ^ (count - k) := by
    simp only [s, inSteps, tenTo_eq]
    congr 2
    omega
  have hunit : s.unit = r.unit * 10 ^ (k - count) := by
    simp only [s, inSteps, tenTo_eq]
    congr 2
    omega
  have hpos : 0 < r.unit := Nat.pos_of_ne_zero fun h ↦ by simp [h] at hhigh
  have hplaces (i : Nat) :
      r.unit * 10 ^ (k + i) * 10 ^ (count - k) = 10 ^ (count + i) * s.unit := by
    rw [hunit, mul_assoc, ← pow_add, mul_left_comm, ← pow_add]
    congr 2
    omega
  constructor
  · rw [Nat.le_div_iff_mul_le (hunit ▸ by positivity), hvalue, ← Nat.add_zero count, ← hplaces 0]
    exact Nat.mul_le_mul_right _ hlow
  · rw [Nat.div_lt_iff_lt_mul (hunit ▸ by positivity), ← hplaces 1, hvalue]
    exact Nat.mul_lt_mul_of_pos_right hhigh (by positivity)

/-- The first of the digits on a grid is not zero. -/
theorem head?_digits?_ne_zero {r : Reach} {tie : Tie} {k count : Nat} {d : Digits}
    (hlow : r.unit * 10 ^ k ≤ r.value) (hhigh : r.value < r.unit * 10 ^ (k + 1))
    (h : r.digits? tie k (count + 1) = some d) : d.digits.head? ≠ some .zero := by
  obtain ⟨n, hn, rfl⟩ := Option.map_eq_some_iff.mp h
  obtain ⟨hten, hlt⟩ := steps_spec hlow hhigh count
  split_ifs with hround
  · exact fun hzero ↦ absurd (Option.some.inj hzero) (by decide)
  · refine Digit.head?_last_ne_zero ?_ ?_
    · rcases neighbour?_cases hn with rfl | rfl <;> omega
    · rw [tenTo_eq] at hround
      rcases neighbour?_cases hn with rfl | rfl <;> omega

theorem digits?_cases {r : Reach} {tie : Tie} {lead : Int} {count : Nat} {d : Digits}
    (h : r.digits? tie lead count = some d) :
    d = ⟨[.one], lead + 1⟩ ∨ d.lead = lead ∧ d.digits.length = count := by
  obtain ⟨n, -, rfl⟩ := Option.map_eq_some_iff.mp h
  split_ifs
  · exact .inl rfl
  · exact .inr ⟨rfl, Digit.length_last _ _⟩

/-- The fewest digits that identify a number can be written out. -/
theorem leading_shortest {r : Reach} (h : r.IsBinary) (tie : Tie) : (r.shortest tie).Leading := by
  simp only [shortest]
  cases hfound : (List.range 17).findSome? fun i ↦ r.digits? tie r.lead (i + 1) with
  | none => exact ⟨by simp, by simp⟩
  | some d =>
    obtain ⟨count, -, hd⟩ := List.exists_of_findSome?_eq_some hfound
    rw [Option.getD_some]
    obtain rfl | ⟨hlead, hlength⟩ := digits?_cases hd
    · exact ⟨by simp, fun _ _ hzero ↦ absurd (Option.some.inj hzero) (by decide)⟩
    · refine ⟨List.ne_nil_of_length_eq_add_one hlength, fun hpos hle ↦ ?_⟩
      rw [hlead] at hpos hle
      obtain ⟨hlow, hhigh⟩ := lead_spec h hpos.le hle
      rw [← Int.toNat_of_nonneg hpos.le] at hd
      exact head?_digits?_ne_zero hlow hhigh hd

end Reach

/-- Before the point a zero stands alone. -/
theorem Digits.Leading.plain {d : Digits} (hd : d.Leading) (hle : d.lead ≤ 15) :
    d.plain.1 ≠ [] ∧ (d.plain.1.head? = some .zero → d.plain.1 = [.zero]) := by
  by_cases hneg : d.lead < 0
  · simp [Digits.plain, hneg]
  · obtain ⟨first, rest, hdigits⟩ := List.exists_cons_of_ne_nil hd.ne_nil
    have hwhole : d.plain.1 = first ::
        (rest.take d.lead.toNat ++ .replicate (d.lead.toNat - rest.length) .zero) := by
      simp [Digits.plain, hneg, hdigits]
    rw [hwhole]
    refine ⟨List.cons_ne_nil _ _, fun hhead ↦ ?_⟩
    obtain rfl : first = .zero := Option.some.inj hhead
    have hzero : d.lead.toNat = 0 := by
      by_contra hpos
      exact hd.head_ne_zero (by omega) hle (by rw [hdigits]; rfl)
    simp [hzero]

/-- A layout that writes numbers near one without an exponent, and numbers from ten to the sixteenth
on with one. -/
def Layout.IsPlainNearOne (layout : Layout) : Prop :=
  ∃ low high : Int, layout.plain = some (low, high) ∧ low ≤ 0 ∧ 0 ≤ high ∧ high ≤ 15

theorem Layout.isPlainNearOne_single : Layout.single.IsPlainNearOne :=
  ⟨-6, 12, rfl, by decide, by decide, by decide⟩

theorem Layout.isPlainNearOne_double : Layout.double.IsPlainNearOne :=
  ⟨-5, 15, rfl, by decide, by decide, by decide⟩

theorem Layout.IsPlainNearOne.wellFormed_numeral {layout : Layout} (h : layout.IsPlainNearOne)
    (negative : Bool) {d : Digits} (hd : d.Leading) :
    (layout.numeral negative d).WellFormed := by
  obtain ⟨low, high, hplain, hlow, hhigh, hle⟩ := h
  simp only [numeral, hplain, Option.all_some, Bool.and_eq_true, decide_eq_true_eq]
  by_cases hrange : low ≤ d.lead ∧ d.lead ≤ high
  · rw [if_pos hrange]
    obtain ⟨hne, hzero⟩ := hd.plain (hrange.2.trans hle)
    exact ⟨hne, hzero, nofun⟩
  · rw [if_neg hrange]
    -- One digit stands before the point.
    obtain ⟨first, rest, hdigits⟩ := List.exists_cons_of_ne_nil hd.ne_nil
    have hexponent : Digit.ofNat d.lead.natAbs ≠ [] := Digit.ofNat_ne_nil (by omega)
    exact ⟨by simp [hdigits], by simp [hdigits], by simpa using hexponent⟩

/-- The numeral of a float in a document is well formed. -/
theorem Layout.IsPlainNearOne.wellFormed_of_write? {layout : Layout} (h : layout.IsPlainNearOne)
    {format : Format} {u : UnpackedFloat} {n : Numeral} (hn : layout.write? format u = some n) :
    n.WellFormed := by
  cases u with
  | finite sign significand exponent hpos =>
    obtain rfl := Option.some.inj hn
    exact h.wellFormed_numeral _
      (Reach.leading_shortest (Reach.isBinary_ofFinite format exponent (by omega)) _)
  | zero sign =>
    obtain rfl := Option.some.inj hn
    exact h.wellFormed_numeral _ ⟨by simp, by simp⟩
  | infinity sign => cases hn
  | notANumber => cases hn

end Decimal

end LayerCanvas
