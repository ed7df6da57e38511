import LayerCanvas.Proofs.Binary.Clock

/-!
Single-precision numbers as they are checked. Settings are checked in double precision, also those
that are held in single precision. Rounding keeps the sign of a number, and what is no finite number
does not become one, so a value that passes in the finer type passes in its own.
-/

set_option autoImplicit false
set_option relaxedAutoImplicit false

namespace LayerCanvas.Binary

open Float.Model (Format UnpackedFloat)
open Float.Model.UnpackedFloat (Sign)

/-- A finite number that is read with a positive sign is finite and greater than zero. -/
theorem isPositive_of_unpack {x : Float32} {m : Nat} {e : Int} {hm : 0 < m}
    (h : x.toModel.unpack = .finite .positive m e hm) : Scalar.isPositive x = true := by
  have hfinite : Scalar.isFinite x = true := by
    show UnpackedFloat.beq
      (Float32.Model.pack (.sub .binary32 x.toModel.unpack x.toModel.unpack)).unpack
      (Scalar.ofNat 0 : Float32).toModel.unpack = true
    have hzero : UnpackedFloat.sub .binary32 (.finite .positive m e hm)
        (.finite .positive m e hm) = .zero .positive := by
      simp only [UnpackedFloat.sub, Int.sub_self, UnpackedFloat.normalize]
      rfl
    rw [h, hzero]
    rfl
  have hpositive : (Scalar.ofNat 0 : Float32) < x := by
    show Float32.lt (Scalar.ofNat 0) x = true
    have hzero : (Scalar.ofNat 0 : Float32).toModel.unpack = .zero .positive := rfl
    simp [Float32.lt, LT.lt, Float32.Model.lt, UnpackedFloat.lt, hzero, h, UnpackedFloat.compare]
  exact Bool.and_eq_true_iff.mpr ⟨hfinite, decide_eq_true hpositive⟩

/-- Rounding and packing keep the sign. -/
theorem sign_of_round {s s' : Sign} {m m' : Nat} {e e' : Int} {hm' : 0 < m'}
    (h : (Float.Model.pack (.round .binary64 s m e)).unpack = .finite s' m' e' hm') : s' = s := by
  unfold UnpackedFloat.round at h
  simp only [roundWithAccuracy_eq] at h
  split_ifs at h
  · rw [unpack_pack_zero] at h
    cases h
  · rcases unpack_pack_finite_cases s _ _ _ with
      ⟨heq, -⟩ | ⟨heq | ⟨_, _, heq⟩, -⟩ | ⟨_, _, heq, -⟩ <;> rw [heq] at h <;> cases h <;> rfl

/-- A number that is finite and greater than zero in double precision is so in single precision. -/
theorem isPositive_of_widen {x : Float32}
    (h : Scalar.isPositive (Precision.widen x : Float) = true) : Scalar.isPositive x = true := by
  obtain ⟨m, e, hm, hwide⟩ := exists_of_isPositive h
  have hpacked : (Float.Model.pack (nearest .binary64 x.toModel.unpack)).unpack =
      .finite .positive m e hm := hwide
  cases hx : x.toModel.unpack with
  | notANumber =>
    rw [hx] at hpacked
    cases hpacked
  | infinity s =>
    rw [hx] at hpacked
    cases (unpack_pack_infinity s).symm.trans hpacked
  | zero s =>
    rw [hx] at hpacked
    cases (unpack_pack_zero s).symm.trans hpacked
  | finite s m' e' hm' =>
    rw [hx] at hpacked
    obtain rfl : .positive = s := sign_of_round hpacked
    exact isPositive_of_unpack hx

end LayerCanvas.Binary
