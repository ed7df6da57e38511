import LayerCanvas.Proofs.Decimal.Scale
import LayerCanvas.Proofs.Decimal.WellFormed

/-!
The digits of a numeral as they are read. If all of them fit into a word, they form the significand,
and the numeral is read as that significand with a power of ten.
-/

set_option autoImplicit false
set_option relaxedAutoImplicit false

namespace LayerCanvas

namespace Digit

theorem foldl_value (start : Nat) (ds : List Digit) :
    ds.foldl (fun n d ↦ 10 * n + d.val) start = start * 10 ^ ds.length + value ds := by
  induction ds generalizing start with
  | nil => simp [value]
  | cons d ds ih =>
    rw [value, List.foldl_cons, List.foldl_cons, ih, ih (10 * 0 + d.val), List.length_cons]
    ring

theorem value_cons (d : Digit) (ds : List Digit) :
    value (d :: ds) = d.val * 10 ^ ds.length + value ds := by
  rw [value, List.foldl_cons, foldl_value, Nat.mul_zero, Nat.zero_add]

/-- The first of the digits behind a number can be taken into the number. -/
theorem mul_add_value_cons (start : Nat) (d : Digit) (ds : List Digit) :
    start * 10 ^ (d :: ds).length + value (d :: ds) =
      (start * 10 + d.val) * 10 ^ ds.length + value ds := by
  rw [value_cons, List.length_cons]
  ring

theorem value_append (ds es : List Digit) :
    value (ds ++ es) = value ds * 10 ^ es.length + value es := by
  rw [value, List.foldl_append, foldl_value]
  rfl

theorem value_lt (ds : List Digit) : value ds < 10 ^ ds.length := by
  induction ds with
  | nil => decide
  | cons d ds ih =>
    have hd : (d.val + 1) * 10 ^ ds.length ≤ 10 * 10 ^ ds.length :=
      Nat.mul_le_mul_right _ d.isLt
    rw [value_cons, List.length_cons, Nat.pow_succ]
    linarith

theorem value_replicate_zero (n : Nat) : value (List.replicate n zero) = 0 := by
  induction n with
  | zero => rfl
  | succ n ih => rw [List.replicate_succ, value_cons, ih, zero, Nat.zero_mul]

theorem value_dropWhile_zero (ds : List Digit) : value (ds.dropWhile (· == zero)) = value ds := by
  induction ds with
  | nil => rfl
  | cons d ds ih =>
    rw [List.dropWhile_cons]
    split_ifs with hd
    · rw [ih, value_cons, beq_iff_eq.mp hd, zero, Nat.zero_mul, Nat.zero_add]
    · rfl

theorem last_succ (count n : Nat) :
    last (count + 1) n = ⟨n / 10 ^ count % 10, Nat.mod_lt _ (by decide)⟩ :: last count n := by
  simp only [last, List.range_succ_eq_map, List.map_cons, List.map_map, tenTo_eq,
    Nat.add_sub_cancel, Nat.sub_zero]
  congr 1
  refine List.map_congr_left fun i _ ↦ ?_
  simp only [Function.comp, Nat.succ_eq_add_one, show count - (i + 1) = count - 1 - i by omega]

theorem value_last (count n : Nat) : value (last count n) = n % 10 ^ count := by
  induction count with
  | zero => rw [Nat.pow_zero, Nat.mod_one]; rfl
  | succ count ih =>
    rw [last_succ, value_cons, length_last, ih, Nat.pow_succ, Nat.mod_mul]
    ring

theorem value_ofNat (n : Nat) : value (ofNat n) = n := by
  rw [ofNat, value_dropWhile_zero, value_last, Nat.mod_eq_of_lt (lt_ten_pow n)]

end Digit

namespace Numeral

open Digit (value)

theorem absorb_lt {start : Nat} (h : start < UInt64.size) (ds : List Digit) :
    (absorb start ds).1 < UInt64.size := by
  induction ds generalizing start with
  | nil => exact h
  | cons d ds ih =>
    rw [absorb]
    split_ifs with hfits
    · exact ih hfits
    · exact h

/-- Digits are taken as long as they fit. -/
theorem absorb_eq {start : Nat} {ds : List Digit}
    (h : start * 10 ^ ds.length + value ds < UInt64.size) :
    absorb start ds = (start * 10 ^ ds.length + value ds, []) := by
  induction ds generalizing start with
  | nil => simp [absorb, value]
  | cons d ds ih =>
    have hpower : 0 < 10 ^ ds.length := by positivity
    rw [Digit.mul_add_value_cons] at h ⊢
    have hfits : start * 10 + d.val < UInt64.size :=
      (Nat.le_mul_of_pos_right _ hpower).trans_lt (by omega)
    rw [absorb]
    simp only [hfits, if_true]
    exact ih h

/-- The power of ten that is written. -/
def power (n : Numeral) : Int :=
  match n.exponent with
  | none => 0
  | some e => if e.negative then -(value e.digits : Int) else value e.digits

/-- A number with the sign of the numeral. -/
def signed (n : Numeral) (f : Float) : Float := if n.negative then -f else f

theorem decimal?_eq {n : Numeral} (h : value (n.whole ++ n.fraction) < UInt64.size) :
    n.decimal? =
      (scale? (value (n.whole ++ n.fraction)) (n.power - n.fraction.length)).map n.signed := by
  have hwhole : value n.whole < UInt64.size := by
    rw [Digit.value_append] at h
    have hpower : 0 < 10 ^ n.fraction.length := by positivity
    exact (Nat.le_mul_of_pos_right _ hpower).trans_lt (by omega)
  have hall : absorb (value n.whole) n.fraction = (value (n.whole ++ n.fraction), []) := by
    rw [Digit.value_append] at h ⊢
    exact absorb_eq h
  have hfirst : absorb 0 n.whole = (value n.whole, []) := by
    have hfits : 0 * 10 ^ n.whole.length + value n.whole < UInt64.size := by omega
    simpa only [Nat.zero_mul, Nat.zero_add] using absorb_eq hfits
  have hpower : (([] : List Digit).length : Int)
      - (n.fraction.length - ([] : List Digit).length : Nat) + n.power
        = n.power - n.fraction.length := by
    rw [List.length_nil, Nat.sub_zero]
    omega
  rw [← hpower]
  unfold decimal?
  simp only [hfirst, hall]
  rfl

theorem decimal?_cases {n : Numeral} {x : Float} (h : n.decimal? = some x) :
    ∃ significand exponent y, significand < UInt64.size ∧
      scale? significand exponent = some y ∧ x = n.signed y := by
  obtain ⟨y, hy, rfl⟩ := Option.map_eq_some_iff.mp h
  exact ⟨_, _, y, absorb_lt (absorb_lt (by decide) _) _, hy, rfl⟩

theorem integer?_lt {n : Numeral} {i : Int} (h : n.integer? = some i) :
    i.natAbs < UInt64.size := by
  have hsize : (absorb 0 n.whole).1 < UInt64.size := absorb_lt (by decide) _
  unfold integer? at h
  simp only at h
  split_ifs at h
  · obtain rfl := Option.some.inj h
    rwa [Int.natAbs_neg, Int.natAbs_natCast]
  · obtain rfl := Option.some.inj h
    rwa [Int.natAbs_natCast]

theorem isFinite_signed {n : Numeral} {x : Float} (h : Scalar.isFinite x = true) :
    Scalar.isFinite (n.signed x) = true := by
  unfold signed
  split_ifs
  · exact Binary.isFinite_neg h
  · exact h

/-- A number that is read is finite. -/
theorem isFinite_of_toFloat? {n : Numeral} {x : Float} (h : n.toFloat? = some x) :
    Scalar.isFinite x = true := by
  unfold toFloat? at h
  cases hinteger : n.integer? with
  | none =>
    rw [hinteger] at h
    obtain ⟨significand, exponent, y, hlt, hy, rfl⟩ := decimal?_cases h
    exact isFinite_signed (isFinite_of_scale? hlt hy)
  | some i =>
    have hlt := integer?_lt hinteger
    rw [hinteger] at h
    cases i with
    | ofNat size =>
      obtain rfl := Option.some.inj h
      exact (Binary.atMost_ofNat hlt).isFinite
    | negSucc size =>
      obtain rfl := Option.some.inj h
      exact Binary.isFinite_neg (Binary.atMost_ofNat hlt).isFinite

end Numeral

end LayerCanvas
