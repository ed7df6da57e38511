import LayerCanvas.Proofs.Decimal.Amount

/-!
The digits that identify a number stay within the reals that round to it. For single precision
seventeen digits are always enough, so there are some, and their amount is close to the number.
-/

set_option autoImplicit false
set_option relaxedAutoImplicit false

namespace LayerCanvas.Decimal.Reach

variable {r : Reach} {tie : Tie} {lead : Int} {count : Nat} {d : Digits}

/-! ### Within the interval -/

theorem neighbour?_contains {n : Nat} (h : r.neighbour? tie = some n) : r.contains n = true := by
  have hcases := neighbour?_cases h
  cases hbelow : r.contains (r.value / r.unit) <;>
    cases habove : r.contains (r.value / r.unit + 1) <;>
    simp only [neighbour?, hbelow, habove, Option.some.injEq, reduceCtorEq] at h
  · exact h ▸ habove
  · exact h ▸ hbelow
  · rcases hcases with rfl | rfl
    · exact hbelow
    · exact habove

theorem zpow_eq_div {b : ℚ} (hb : b ≠ 0) (k : Int) : b ^ k = b ^ k.toNat / b ^ (-k).toNat := by
  rw [eq_div_iff (pow_ne_zero _ hb), ← zpow_natCast, ← zpow_natCast, ← zpow_add₀ hb]
  congr 1
  omega

theorem inSteps_contains {k : Int} {n : Nat} (h : (r.inSteps k).contains n = true) :
    (r.low : ℚ) ≤ n * 10 ^ k * r.unit ∧ n * 10 ^ k * r.unit ≤ (r.high : ℚ) := by
  have hnat : r.low * 10 ^ (-k).toNat ≤ n * (r.unit * 10 ^ k.toNat) ∧
      n * (r.unit * 10 ^ k.toNat) ≤ r.high * 10 ^ (-k).toNat := by
    unfold contains at h
    split_ifs at h
    · exact (Bool.and_eq_true_iff.mp h).imp of_decide_eq_true of_decide_eq_true
    · exact (Bool.and_eq_true_iff.mp h).imp (fun hlow ↦ (of_decide_eq_true hlow).le)
        fun hhigh ↦ (of_decide_eq_true hhigh).le
  have hpower : (n : ℚ) * 10 ^ k * r.unit = n * (r.unit * 10 ^ k.toNat) / 10 ^ (-k).toNat := by
    rw [zpow_eq_div (by norm_num : (10 : ℚ) ≠ 0)]
    ring
  rw [hpower, le_div_iff₀ (by positivity), div_le_iff₀ (by positivity)]
  exact_mod_cast hnat

/-- What the digits on a grid are. -/
theorem digits?_spec (h : r.digits? tie lead (count + 1) = some d) (hcount : count < 17) :
    d.Short ∧ lead ≤ d.lead ∧ ∃ n : Nat, (r.inSteps (lead - count)).neighbour? tie = some n ∧
      d.amount ≤ n * 10 ^ (lead - count) ∧
      (n ≤ 10 ^ (count + 1) → d.amount = n * 10 ^ (lead - count)) := by
  obtain ⟨n, hn, rfl⟩ := Option.map_eq_some_iff.mp h
  have hgrid : lead - (count + 1 : Nat) + 1 = lead - count := by omega
  rw [hgrid] at hn
  -- Nines that are rounded up carry into a digit more: a one with nothing behind it.
  split_ifs with hround
  · have hamount : Digits.amount ⟨[.one], lead + 1⟩ = n * 10 ^ (lead - count) := by
      have hexponent : lead + 1 + 1 - ([Digit.one].length : Int) =
          (count + 1 : Nat) + (lead - count) := by
        rw [List.length_singleton]
        omega
      have hone : Digit.value [.one] = 1 := rfl
      rw [Digits.amount, hexponent, hone, hround, tenTo_eq, zpow_add₀ (by norm_num), zpow_natCast]
      push_cast
      ring
    exact ⟨⟨by simp, by simp⟩, by simp, n, hn, hamount.le, fun _ ↦ hamount⟩
  · have hamount : Digits.amount ⟨Digit.last (count + 1) n, lead⟩ =
        (n % 10 ^ (count + 1) : Nat) * 10 ^ (lead - count) := by
      rw [Digits.amount, Digit.value_last, Digit.length_last]
      congr 2
      push_cast
      ring
    refine ⟨⟨?_, ?_⟩, le_rfl, n, hn, ?_, fun hle ↦ ?_⟩
    · exact List.ne_nil_of_length_eq_add_one (Digit.length_last _ _)
    · simpa using hcount
    · rw [hamount]
      exact mul_le_mul_of_nonneg_right (by exact_mod_cast Nat.mod_le _ _) (by positivity)
    · rw [tenTo_eq] at hround
      rw [hamount, Nat.mod_eq_of_lt (by omega)]

theorem shortest_cases (r : Reach) (tie : Tie) :
    (r.shortest tie = ⟨[.zero], 0⟩ ∧ ∀ count < 17, r.digits? tie r.lead (count + 1) = none) ∨
      ∃ count < 17, r.digits? tie r.lead (count + 1) = some (r.shortest tie) := by
  simp only [shortest]
  cases hfound : (List.range 17).findSome? fun i ↦ r.digits? tie r.lead (i + 1) with
  | none =>
    rw [List.findSome?_eq_none_iff] at hfound
    exact Or.inl ⟨rfl, fun count hcount ↦ hfound count (List.mem_range.mpr hcount)⟩
  | some d =>
    obtain ⟨count, hcount, hd⟩ := List.exists_of_findSome?_eq_some hfound
    exact Or.inr ⟨count, List.mem_range.mp hcount, hd⟩

theorem short_shortest (r : Reach) (tie : Tie) : (r.shortest tie).Short := by
  rcases shortest_cases r tie with ⟨hnone, -⟩ | ⟨count, hcount, hd⟩
  · rw [hnone]
    exact ⟨by simp, by simp⟩
  · exact (digits?_spec hd hcount).1

theorem amount_shortest_le (r : Reach) (tie : Tie) :
    (r.shortest tie).amount * r.unit ≤ r.high := by
  rcases shortest_cases r tie with ⟨hnone, -⟩ | ⟨count, hcount, hd⟩
  · rw [hnone]
    have hzero : Digit.value [.zero] = 0 := rfl
    rw [Digits.amount, hzero, Nat.cast_zero, zero_mul, zero_mul]
    exact Nat.cast_nonneg _
  · obtain ⟨-, -, n, hn, hle, -⟩ := digits?_spec hd hcount
    calc _ ≤ _ := mul_le_mul_of_nonneg_right hle (by positivity)
      _ ≤ _ := (inSteps_contains (neighbour?_contains hn)).2

/-! ### The place of the first digit -/

theorem atLeast_iff_le {k : Int} : r.AtLeast k ↔ (10 : ℚ) ^ k * r.unit ≤ r.value := by
  rw [AtLeast, tenTo_eq, tenTo_eq, zpow_eq_div (by norm_num : (10 : ℚ) ≠ 0), div_mul_eq_mul_div,
    div_le_iff₀ (by positivity), mul_comm]
  exact_mod_cast Iff.rfl

/-- The guess is off by at most one, in a range that holds the single-precision numbers. -/
theorem guess_table : ∀ i : Nat, i < 300 →
    let p : Int := i - 160
    let guess : Int := p * 30103 / 100000
    10 ^ (guess - 1).toNat * 2 ^ (-p).toNat ≤ 2 ^ p.toNat * 10 ^ (-(guess - 1)).toNat ∧
      2 ^ (p + 1).toNat * 10 ^ (-(guess + 2)).toNat ≤
        10 ^ (guess + 2).toNat * 2 ^ (-(p + 1)).toNat := by
  decide +kernel

theorem guess_place {p : Int} (hlow : -160 ≤ p) (hhigh : p < 140) :
    (10 : ℚ) ^ (p * 30103 / 100000 - 1) ≤ 2 ^ p ∧
      (2 : ℚ) ^ (p + 1) ≤ 10 ^ (p * 30103 / 100000 + 2) := by
  have htable := guess_table (p + 160).toNat (by omega)
  rw [show ((p + 160).toNat : Int) - 160 = p by omega] at htable
  have hten := zpow_eq_div (by norm_num : (10 : ℚ) ≠ 0)
  have htwo := zpow_eq_div (by norm_num : (2 : ℚ) ≠ 0)
  rw [hten, htwo, hten, htwo, div_le_div_iff₀ (by positivity) (by positivity),
    div_le_div_iff₀ (by positivity) (by positivity)]
  exact_mod_cast htable

/-- The largest power of ten that the number reaches. -/
theorem lead_place (h : r.IsBinary) (hlow : -160 ≤ (r.value.log2 : Int) - r.unit.log2)
    (hhigh : (r.value.log2 : Int) - r.unit.log2 < 140) :
    (10 : ℚ) ^ r.lead * r.unit ≤ r.value ∧ (r.value : ℚ) < 10 ^ (r.lead + 1) * r.unit := by
  obtain ⟨j, hunit⟩ := h.unit_eq
  obtain ⟨hbelow, habove⟩ := guess_place hlow hhigh
  have hguess : ((r.value.log2 : Int) - r.unit.log2) * 30103 / 100000 = r.guess := rfl
  rw [hguess] at hbelow habove
  have hpos : (0 : ℚ) < r.unit := by rw [hunit]; positivity
  have hlog : r.unit.log2 = j := by rw [hunit, Nat.log2_two_pow]
  have hpower (k : Nat) : (2 : ℚ) ^ ((k : Int) - r.unit.log2) * r.unit = 2 ^ k := by
    rw [hlog, hunit, Nat.cast_pow, ← zpow_natCast, ← zpow_natCast]
    push_cast
    rw [← zpow_add₀ (by norm_num)]
    congr 1
    omega
  have hbelow' : (10 : ℚ) ^ (r.guess - 1) * r.unit ≤ r.value := by
    calc (10 : ℚ) ^ (r.guess - 1) * r.unit ≤ 2 ^ ((r.value.log2 : Int) - r.unit.log2) * r.unit :=
          mul_le_mul_of_nonneg_right hbelow hpos.le
      _ = 2 ^ r.value.log2 := hpower _
      _ ≤ r.value := by exact_mod_cast Nat.log2_self_le h.value_ne_zero
  have habove' : (r.value : ℚ) < 10 ^ (r.guess + 2) * r.unit := by
    calc (r.value : ℚ) < 2 ^ (r.value.log2 + 1) := by exact_mod_cast Nat.lt_log2_self
      _ = 2 ^ ((r.value.log2 : Int) - r.unit.log2 + 1) * r.unit := by
        rw [← hpower]
        congr 2
        push_cast
        ring
      _ ≤ 10 ^ (r.guess + 2) * r.unit := mul_le_mul_of_nonneg_right habove hpos.le
  -- The guess is off by one at most, and two comparisons tell which way.
  rw [lead_eq]
  split_ifs with hone hzero
  · refine ⟨atLeast_iff_le.mp hone, ?_⟩
    rwa [show r.guess + 1 + 1 = r.guess + 2 by ring]
  · rw [atLeast_iff_le, not_le] at hone
    exact ⟨atLeast_iff_le.mp hzero, hone⟩
  · rw [atLeast_iff_le, not_le] at hzero
    refine ⟨hbelow', ?_⟩
    rwa [sub_add_cancel]

/-! ### Enough digits -/

/-- A number that reaches to both sides by more than a step of the seventeenth digit. -/
structure Wide (r : Reach) : Prop where
  low_lt : r.low * 10 ^ 16 + r.value < r.value * 10 ^ 16
  lt_high : r.value < r.high

/-- The steps of a grid, in units of the number. -/
theorem inSteps_le_iff {k i : Int} :
    (10 : ℚ) ^ i * (r.inSteps k).unit ≤ (r.inSteps k).value ↔
      (10 : ℚ) ^ (i + k) * r.unit ≤ r.value := by
  have hunit : ((r.inSteps k).unit : ℚ) = 10 ^ k * r.unit * 10 ^ (-k).toNat := by
    rw [zpow_eq_div (by norm_num : (10 : ℚ) ≠ 0), div_mul_eq_mul_div,
      div_mul_cancel₀ _ (by positivity)]
    simp only [inSteps, tenTo_eq]
    push_cast
    ring
  have hvalue : ((r.inSteps k).value : ℚ) = r.value * 10 ^ (-k).toNat := by
    simp only [inSteps, tenTo_eq]
    push_cast
    ring
  rw [hunit, hvalue, ← mul_assoc, ← mul_assoc, ← zpow_add₀ (by norm_num),
    mul_le_mul_iff_left₀ (by positivity)]

/-- Seventeen digits are enough. -/
theorem exists_digits? (hwide : r.Wide) (hlead : (10 : ℚ) ^ lead * r.unit ≤ r.value)
    (hunit : 0 < r.unit) (tie : Tie) : ∃ d, r.digits? tie lead 17 = some d := by
  set s := r.inSteps (lead - 16) with hs
  have hstep : 10 ^ 16 * s.unit ≤ s.value := by
    have hreal : (10 : ℚ) ^ (16 : Int) * s.unit ≤ s.value := by
      rw [hs, inSteps_le_iff]
      rwa [add_sub_cancel]
    exact_mod_cast hreal
  have hpos : 0 < s.unit := Nat.mul_pos hunit (by rw [tenTo_eq]; positivity)
  have hup : 0 < tenTo (-(lead - 16)).toNat := by rw [tenTo_eq]; positivity
  have hlow : s.low * 10 ^ 16 + s.value < s.value * 10 ^ 16 := by
    have hscaled := Nat.mul_lt_mul_of_pos_right hwide.low_lt hup
    simp only [hs, inSteps]
    linarith
  have hhigh : s.value < s.high := Nat.mul_lt_mul_of_pos_right hwide.lt_high hup
  have hbelow : s.value / s.unit * s.unit ≤ s.value := Nat.div_mul_le_self _ _
  have habove : s.value < s.value / s.unit * s.unit + s.unit := Nat.lt_div_mul_add hpos
  -- The number reaches down by more than a step, so the step below it is near enough.
  have hcontains : s.contains (s.value / s.unit) = true := by
    unfold contains
    split_ifs <;> simp only [Bool.and_eq_true, decide_eq_true_eq] <;> omega
  have hneighbour : ∃ n, s.neighbour? tie = some n := by
    unfold neighbour?
    simp only [hcontains]
    cases s.contains (s.value / s.unit + 1) with
    | false => exact ⟨_, rfl⟩
    | true => cases compare (2 * s.value) ((2 * (s.value / s.unit) + 1) * s.unit) <;> exact ⟨_, rfl⟩
  obtain ⟨n, hn⟩ := hneighbour
  refine ⟨_, Option.map_eq_some_iff.mpr ⟨n, ?_, rfl⟩⟩
  rwa [show lead - (17 : Nat) + 1 = lead - 16 by omega]

/-- The digits of a number that is wide enough are not below the reals that round to it. -/
theorem low_le_amount (h : r.IsBinary) (hwide : r.Wide)
    (hlow : -160 ≤ (r.value.log2 : Int) - r.unit.log2)
    (hhigh : (r.value.log2 : Int) - r.unit.log2 < 140) (tie : Tie) :
    r.low ≤ (r.shortest tie).amount * r.unit ∧ r.lead ≤ (r.shortest tie).lead := by
  have hunit : 0 < r.unit := by
    obtain ⟨j, hunit⟩ := h.unit_eq
    rw [hunit]
    exact Nat.two_pow_pos j
  obtain ⟨hreached, hnext⟩ := lead_place h hlow hhigh
  rcases shortest_cases r tie with ⟨-, hnone⟩ | ⟨count, hcount, hd⟩
  · obtain ⟨d, hd⟩ := exists_digits? hwide hreached hunit tie
    rw [hnone 16 (by decide)] at hd
    cases hd
  · obtain ⟨-, hplace, n, hn, -, hamount⟩ := digits?_spec hd hcount
    refine ⟨?_, hplace⟩
    set s := r.inSteps (r.lead - count) with hs
    have hpos : 0 < s.unit := Nat.mul_pos hunit (by rw [tenTo_eq]; positivity)
    have hdigits : s.value / s.unit < 10 ^ (count + 1) := by
      rw [Nat.div_lt_iff_lt_mul hpos, ← not_le]
      intro hlarge
      have hreal : (10 : ℚ) ^ ((count + 1 : Nat) : Int) * s.unit ≤ s.value := by
        rw [zpow_natCast]
        exact_mod_cast hlarge
      rw [hs, inSteps_le_iff, show ((count + 1 : Nat) : Int) + (r.lead - count) = r.lead + 1 by
        push_cast; ring] at hreal
      linarith
    rw [hamount (by rcases neighbour?_cases hn with rfl | rfl <;> omega)]
    exact (inSteps_contains (neighbour?_contains hn)).1

end LayerCanvas.Decimal.Reach
