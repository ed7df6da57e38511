import LayerCanvas.Proofs.Binary.Packing
import LayerCanvas.Proofs.Binary.Sum
import LayerCanvas.Proofs.Tween

/-!
Machine numbers as times. A difference of finite numbers is a number, though it may be infinite, and
its quotient by a duration reaches one exactly when it is not smaller than the duration. So
double-precision numbers keep time in the sense asked for, and a creation ends at the
single-precision one.
-/

set_option autoImplicit false
set_option relaxedAutoImplicit false

namespace LayerCanvas

namespace Binary

open Float.Model (Format UnpackedFloat)
open Float.Model.UnpackedFloat (Sign)

/-! ### Comparing -/

theorem lt_iff {a b : Float} : a < b ↔ a.toModel.unpack.compare b.toModel.unpack = some .lt := by
  show Float.lt a b = true ↔ _
  simp [Float.lt, LT.lt, Float.Model.lt, UnpackedFloat.lt]

theorem le_iff {a b : Float} :
    a ≤ b ↔ ∃ o, a.toModel.unpack.compare b.toModel.unpack = some o ∧ o.isLE = true := by
  have hle : a ≤ b ↔ (a.toModel.unpack.compare b.toModel.unpack).any (·.isLE) = true := by
    show decide (Float.Model.le a.toModel b.toModel = true) = true ↔ _
    rw [decide_eq_true_iff]
    rfl
  rw [hle, Option.any_eq_true]

theorem unpack_one : (Scalar.ofNat 1 : Float).toModel.unpack =
    .finite .positive (2 ^ 52) (-52) (by decide) := rfl

theorem unpack_zero : (Scalar.ofNat 0 : Float).toModel.unpack = .zero .positive := rfl

/-! ### Finite numbers -/

/-- A number is finite if taking it away from itself leaves zero, and only then. -/
theorem isFinite_eq (x : Float) : Scalar.isFinite x = x.toModel.unpack.isFinite := by
  show UnpackedFloat.beq
    (Float.Model.pack (.sub .binary64 x.toModel.unpack x.toModel.unpack)).unpack
    (Scalar.ofNat 0 : Float).toModel.unpack = _
  cases x.toModel.unpack with
  | notANumber => rfl
  | infinity s => cases s <;> rfl
  | zero s => cases s <;> rfl
  | finite s m e hm =>
    have hzero : UnpackedFloat.sub .binary64 (.finite s m e hm) (.finite s m e hm) =
        .zero .positive := by
      simp only [UnpackedFloat.sub, Int.sub_self, UnpackedFloat.normalize]
      rfl
    rw [hzero]
    rfl

theorem canonical_unpack {x : Float.Model} {s : Sign} {m : Nat} {e : Int} {hm : 0 < m}
    (h : x.unpack = .finite s m e hm) : Canonical m e := by
  obtain ⟨hshort, hleast, hfull⟩ := unpack_finite_bounds h
  exact ⟨hm, hshort, hleast, hfull⟩

theorem exists_of_isPositive {x : Float} (h : Scalar.isPositive x = true) :
    ∃ m e hm, x.toModel.unpack = .finite .positive m e hm := by
  obtain ⟨hfinite, hpositive⟩ := Bool.and_eq_true_iff.mp h
  rw [isFinite_eq] at hfinite
  have hpositive' : (Scalar.ofNat 0 : Float) < x := of_decide_eq_true hpositive
  rw [lt_iff, unpack_zero] at hpositive'
  cases hx : x.toModel.unpack with
  | notANumber => simp [hx, UnpackedFloat.isFinite] at hfinite
  | infinity s => simp [hx, UnpackedFloat.isFinite] at hfinite
  | zero s => simp [hx, UnpackedFloat.compare] at hpositive'
  | finite s m e hm =>
    cases s with
    | positive => exact ⟨m, e, hm, rfl⟩
    | negative => simp [hx, UnpackedFloat.compare] at hpositive'

/-! ### Differences -/

/-- A difference of finite numbers is a number. -/
theorem unpack_sub_ne_notANumber {x y : Float} (hx : Scalar.isFinite x = true)
    (hy : Scalar.isFinite y = true) : (x - y).toModel.unpack ≠ .notANumber := by
  rw [isFinite_eq] at hx hy
  exact unpack_pack_ne_notANumber (sub_ne_notANumber _ hx hy)

/-! ### Quotients -/

/-- A finite number is at least one exactly if its exponent is large enough. -/
theorem one_le_finite_iff {x : Float} {m : Nat} {e : Int} {hm : 0 < m}
    (hx : x.toModel.unpack = .finite .positive m e hm) : Scalar.ofNat 1 ≤ x ↔ -52 ≤ e := by
  obtain ⟨-, -, hfull⟩ := unpack_finite_bounds hx
  rw [le_iff, unpack_one, hx]
  simp only [UnpackedFloat.compare, Option.some.injEq, exists_eq_left']
  rcases Int.lt_trichotomy (-52) e with hlt | heq | hgt
  · simp [Int.compare_eq_lt.mpr hlt, hlt.le]
  · have hm' : 2 ^ 52 ≤ m := hfull.resolve_right (by omega)
    have hle : (compare (2 ^ 52) m).isLE = true := Nat.isLE_compare.mpr hm'
    simpa [heq] using hle
  · simp [Int.compare_eq_gt.mpr hgt, hgt]

theorem not_one_le_of_negative {x : Float} (hx : x.toModel.unpack = .infinity .negative ∨
    (∃ s, x.toModel.unpack = .zero s) ∨ ∃ m e hm, x.toModel.unpack = .finite .negative m e hm) :
    ¬ Scalar.ofNat 1 ≤ x := by
  rw [le_iff, unpack_one]
  rcases hx with hx | ⟨s, hx⟩ | ⟨m, e, hm, hx⟩ <;> simp [hx, UnpackedFloat.compare]

theorem one_le_infinity {x : Float} (hx : x.toModel.unpack = .infinity .positive) :
    Scalar.ofNat 1 ≤ x := by
  rw [le_iff, unpack_one, hx]
  exact ⟨.lt, rfl, rfl⟩

theorem div_finite {x y : Float} {m₁ m₂ : Nat} {e₁ e₂ : Int} {s : Sign} {h₁ : 0 < m₁} {h₂ : 0 < m₂}
    (hx : x.toModel.unpack = .finite s m₁ e₁ h₁)
    (hy : y.toModel.unpack = .finite .positive m₂ e₂ h₂) :
    (x / y).toModel = Float.Model.pack
      (let core := UnpackedFloat.divCore .binary64 m₁ e₁ m₂ e₂
      .roundWithAccuracy .binary64 (s / .positive) core.1 core.2.1 core.2.2) := by
  show Float.Model.pack (.div .binary64 x.toModel.unpack y.toModel.unpack) = _
  rw [hx, hy]
  rfl

/-- The quotient of two positive numbers reaches one when the dividend reaches the divisor. -/
theorem one_le_div_positive_iff {x y : Float} {m₁ m₂ : Nat} {e₁ e₂ : Int} {h₁ : 0 < m₁}
    {h₂ : 0 < m₂}
    (hx : x.toModel.unpack = .finite .positive m₁ e₁ h₁)
    (hy : y.toModel.unpack = .finite .positive m₂ e₂ h₂) : Scalar.ofNat 1 ≤ x / y ↔ ¬ x < y := by
  have hdiv := div_finite hx hy
  have hcompare : x < y ↔ e₁ < e₂ ∨ e₁ = e₂ ∧ m₁ < m₂ := by
    rw [lt_iff, hx, hy]
    simp only [UnpackedFloat.compare, Option.some.injEq]
    rw [Ordering.then_eq_lt, Int.compare_eq_lt, Int.compare_eq_eq, Nat.compare_eq_lt]
  rw [hcompare]
  -- Neither rounding nor packing takes the quotient to the other side of one.
  by_cases hlt : e₁ < e₂ ∨ e₁ = e₂ ∧ m₁ < m₂
  · refine iff_of_false ?_ (not_not.mpr hlt)
    rcases quotient_below_one (canonical_unpack hx) (canonical_unpack hy) hlt .positive with
      hround | ⟨m, e, hm, hround, he⟩
    · exact not_one_le_of_negative
        (Or.inr (Or.inl ⟨.positive, by rw [hdiv, ← unpack_pack_zero, ← hround]; rfl⟩))
    · have hunpack : (x / y).toModel = Float.Model.pack (.finite .positive m e hm) := by
        rw [hdiv, ← hround]
        rfl
      rcases unpack_pack_finite_cases .positive m e hm with
        ⟨-, hlarge⟩ | ⟨heq | ⟨m', hm', heq⟩, -⟩ | ⟨m', hm', heq, -⟩
      · omega
      · exact not_one_le_of_negative (Or.inr (Or.inl ⟨.positive, by rw [hunpack, heq]⟩))
      · rw [← hunpack] at heq
        rw [one_le_finite_iff heq]
        decide
      · rw [← hunpack] at heq
        rw [one_le_finite_iff heq]
        omega
  · refine iff_of_true ?_ hlt
    obtain ⟨m, e, hm, hlog, he, hround⟩ := quotient_full (canonical_unpack hx) (canonical_unpack hy)
      (by omega) .positive
    have hunpack : (x / y).toModel = Float.Model.pack (.finite .positive m e hm) := by
      rw [hdiv, ← hround]
      rfl
    rcases unpack_pack_finite_cases .positive m e hm with ⟨heq, -⟩ | ⟨-, hleast⟩ | ⟨m', hm', heq, -⟩
    · exact one_le_infinity (by rw [hunpack, heq])
    · have hsmall := hleast hlog
      omega
    · rw [← hunpack] at heq
      rw [one_le_finite_iff heq]
      exact he

theorem one_le_div_iff {x y : Float} (hx : x.toModel.unpack ≠ .notANumber)
    (hy : Scalar.isPositive y = true) : Scalar.ofNat 1 ≤ x / y ↔ ¬ x < y := by
  obtain ⟨m₂, e₂, h₂, hy'⟩ := exists_of_isPositive hy
  have hdiv : (x / y).toModel.unpack =
      (Float.Model.pack (.div .binary64 x.toModel.unpack y.toModel.unpack)).unpack := rfl
  rw [hy'] at hdiv
  cases hx' : x.toModel.unpack with
  | notANumber => exact absurd hx' hx
  | infinity s =>
    rw [hx'] at hdiv
    cases s with
    | positive =>
      refine iff_of_true (one_le_infinity (hdiv.trans (unpack_pack_infinity .positive))) ?_
      rw [lt_iff, hx', hy']
      exact nofun
    | negative =>
      have hdiv' := hdiv.trans (unpack_pack_infinity .negative)
      refine iff_of_false (not_one_le_of_negative (Or.inl hdiv')) (not_not.mpr ?_)
      rw [lt_iff, hx', hy']
      rfl
  | zero s =>
    rw [hx'] at hdiv
    refine iff_of_false (not_one_le_of_negative (Or.inr (Or.inl ⟨s / .positive, ?_⟩)))
      (not_not.mpr ?_)
    · exact hdiv.trans (unpack_pack_zero _)
    · rw [lt_iff, hx', hy']
      rfl
  | finite s m₁ e₁ h₁ =>
    cases s with
    | positive => exact one_le_div_positive_iff hx' hy'
    | negative =>
      refine iff_of_false (not_one_le_of_negative ?_) (not_not.mpr ?_)
      · rw [div_finite hx' hy', roundWithAccuracy_eq,
          show Sign.negative / Sign.positive = .negative from rfl]
        split_ifs
        · exact Or.inr (Or.inl ⟨.negative, unpack_pack_zero .negative⟩)
        · rcases unpack_pack_finite_cases .negative _ _ _ with
            ⟨heq, -⟩ | ⟨heq | ⟨m', hm', heq⟩, -⟩ | ⟨m', hm', heq, -⟩
          · exact Or.inl heq
          · exact Or.inr (Or.inl ⟨.negative, heq⟩)
          · exact Or.inr (Or.inr ⟨m', -1074, hm', heq⟩)
          · exact Or.inr (Or.inr ⟨m', _, hm', heq⟩)
      · rw [lt_iff, hx', hy']
        rfl

/-! ### What is no number -/

theorem isNumber_iff {x : Float} :
    Scalar.isNumber x = true ↔ x.toModel.unpack ≠ .notANumber := by
  show UnpackedFloat.beq x.toModel.unpack x.toModel.unpack = true ↔ _
  cases x.toModel.unpack with
  | notANumber => exact iff_of_false nofun fun h ↦ h rfl
  | infinity s => cases s <;> exact iff_of_true rfl nofun
  | zero s => exact iff_of_true rfl nofun
  | finite s m e hm =>
    refine iff_of_true ?_ nofun
    cases s <;> simp [UnpackedFloat.beq, UnpackedFloat.compare]

theorem unpack_of_isNumber_eq_false {x : Float} (h : Scalar.isNumber x = false) :
    x.toModel.unpack = .notANumber := by
  by_contra hnumber
  rw [isNumber_iff.mpr hnumber] at h
  cases h

/-- A difference from a finite number is a number if the other one is. -/
theorem unpack_sub_ne_notANumber_of_isNumber {x y : Float} (hx : Scalar.isNumber x = true)
    (hy : Scalar.isFinite y = true) : (x - y).toModel.unpack ≠ .notANumber := by
  by_cases hfinite : Scalar.isFinite x = true
  · exact unpack_sub_ne_notANumber hfinite hy
  · rw [isNumber_iff] at hx
    rw [isFinite_eq] at hfinite hy
    refine unpack_pack_ne_notANumber ?_
    cases hx' : x.toModel.unpack with
    | notANumber => exact absurd hx' hx
    | infinity s =>
      cases hy' : y.toModel.unpack with
      | notANumber => simp [hy', UnpackedFloat.isFinite] at hy
      | infinity s' => simp [hy', UnpackedFloat.isFinite] at hy
      | _ => exact nofun
    | _ => simp [hx', UnpackedFloat.isFinite] at hfinite

/-- Nothing can be told of a difference from what is no number, or of infinity from itself. -/
theorem unpack_sub_eq_notANumber {x y : Float}
    (h : Scalar.isNumber x = false ∨ y = x ∧ Scalar.isFinite x = false) :
    (x - y).toModel.unpack = .notANumber := by
  have hsub : UnpackedFloat.sub .binary64 x.toModel.unpack y.toModel.unpack = .notANumber := by
    rcases h with h | ⟨rfl, h⟩
    · rw [unpack_of_isNumber_eq_false h]
      cases y.toModel.unpack <;> rfl
    · rw [isFinite_eq] at h
      cases hy : y.toModel.unpack with
      | notANumber => rfl
      | infinity s => cases s <;> rfl
      | _ => simp [hy, UnpackedFloat.isFinite] at h
  show (Float.Model.pack (.sub .binary64 x.toModel.unpack y.toModel.unpack)).unpack = _
  rw [hsub]
  rfl

theorem not_lt_of_notANumber {x y : Float} (h : x.toModel.unpack = .notANumber) : ¬ x < y := by
  rw [lt_iff, h]
  exact nofun

theorem not_one_le_div_of_notANumber {x y : Float} (h : x.toModel.unpack = .notANumber) :
    ¬ Scalar.ofNat 1 ≤ x / y := by
  have hdiv : (x / y).toModel.unpack = .notANumber := by
    have hdiv : UnpackedFloat.div .binary64 .notANumber y.toModel.unpack = .notANumber := by
      cases y.toModel.unpack <;> rfl
    show (Float.Model.pack (.div .binary64 x.toModel.unpack y.toModel.unpack)).unpack = _
    rw [h, hdiv]
    rfl
  rw [le_iff, unpack_one, hdiv]
  exact nofun

/-! ### The unit interval -/

theorem not_one_le_of_lt_zero {x : Float} (hx : x < Scalar.ofNat 0) : ¬ Scalar.ofNat 1 ≤ x := by
  rw [lt_iff, unpack_zero] at hx
  apply not_one_le_of_negative
  cases hx' : x.toModel.unpack with
  | notANumber => simp [hx', UnpackedFloat.compare] at hx
  | zero s => simp [hx', UnpackedFloat.compare] at hx
  | infinity s =>
    cases s with
    | positive => simp [hx', UnpackedFloat.compare] at hx
    | negative => exact Or.inl rfl
  | finite s m e hm =>
    cases s with
    | positive => simp [hx', UnpackedFloat.compare] at hx
    | negative => exact Or.inr (Or.inr ⟨m, e, hm, rfl⟩)

theorem one_le_of_one_lt {x : Float} (hx : Scalar.ofNat 1 < x) : Scalar.ofNat 1 ≤ x :=
  le_iff.mpr ⟨.lt, lt_iff.mp hx, rfl⟩

theorem not_one_le_zero : ¬ (Scalar.ofNat 1 : Float) ≤ Scalar.ofNat 0 :=
  not_one_le_of_negative (Or.inr (Or.inl ⟨.positive, unpack_zero⟩))

theorem one_le_one : (Scalar.ofNat 1 : Float) ≤ Scalar.ofNat 1 :=
  (one_le_finite_iff unpack_one).mpr le_rfl

/-- There is one way to write one. -/
theorem unpack_eq_one {x : Float} (hle : Scalar.ofNat 1 ≤ x) (hlt : ¬ Scalar.ofNat 1 < x) :
    x.toModel.unpack = (Scalar.ofNat 1 : Float).toModel.unpack := by
  rw [le_iff, unpack_one] at hle
  rw [lt_iff, unpack_one] at hlt
  rw [unpack_one]
  obtain ⟨o, ho, hisLE⟩ := hle
  have heq : o = .eq := by
    cases o with
    | lt => exact absurd ho hlt
    | eq => rfl
    | gt => cases hisLE
  subst heq
  cases hx : x.toModel.unpack with
  | notANumber => simp [hx, UnpackedFloat.compare] at ho
  | infinity s => cases s <;> simp [hx, UnpackedFloat.compare] at ho
  | zero s => simp [hx, UnpackedFloat.compare] at ho
  | finite s m e hm =>
    cases s with
    | negative => simp [hx, UnpackedFloat.compare] at ho
    | positive =>
      simp only [hx, UnpackedFloat.compare, Option.some.injEq] at ho
      rw [Ordering.then_eq_eq, Int.compare_eq_eq, Nat.compare_eq_eq] at ho
      obtain ⟨rfl, rfl⟩ := ho
      rfl

theorem easeOutCubic_congr {x y : Float} (h : x.toModel.unpack = y.toModel.unpack) :
    easeOutCubic x = easeOutCubic y := by
  have hleft : Scalar.ofNat 1 - x = Scalar.ofNat 1 - y := by
    show Float.ofModel (.pack (.sub .binary64 _ x.toModel.unpack)) =
      Float.ofModel (.pack (.sub .binary64 _ y.toModel.unpack))
    rw [h]
  unfold easeOutCubic
  exact congrArg (fun left : Float ↦ Scalar.ofNat 1 - left * (left * left)) hleft

theorem narrow_easeOutCubic_one : narrow (easeOutCubic (Scalar.ofNat 1)) = Scalar.ofNat 1 := by
  decide +kernel

end Binary

open Binary

instance : Clock Float where
  one_le_div_iff start now duration hstart hnow hduration :=
    one_le_div_iff (unpack_sub_ne_notANumber hnow hstart) hduration
  one_le_clamp_iff x := by
    unfold Scalar.clamp
    split_ifs with hlow hhigh
    · exact iff_of_false not_one_le_zero (not_one_le_of_lt_zero hlow)
    · exact iff_of_true one_le_one (one_le_of_one_lt hhigh)
    · rfl

instance : Lapse Float where
  one_le_div_iff start now duration hstart hnow hduration :=
    one_le_div_iff (unpack_sub_ne_notANumber_of_isNumber hnow hstart) hduration
  isNumber_of_isFinite now hnow := by
    rw [isFinite_eq] at hnow
    refine isNumber_iff.mpr fun hnan ↦ ?_
    rw [hnan] at hnow
    cases hnow
  not_one_le_div start now duration h := not_one_le_div_of_notANumber (unpack_sub_eq_notANumber h)
  not_lt start now duration h := not_lt_of_notANumber (unpack_sub_eq_notANumber h)

instance : Easing Float32 Float where
  narrow_easeOutCubic x h := by
    unfold Scalar.clamp at h ⊢
    split_ifs at h ⊢ with hlow hhigh
    · exact absurd h not_one_le_zero
    · exact narrow_easeOutCubic_one
    · show narrow (easeOutCubic x) = Scalar.ofNat 1
      rw [easeOutCubic_congr (unpack_eq_one h hhigh)]
      exact narrow_easeOutCubic_one

end LayerCanvas
