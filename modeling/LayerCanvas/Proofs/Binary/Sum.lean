import LayerCanvas.Proofs.Binary.Rounding

/-!
Sums in a format, of whatever precision. A number that is read from a word is a whole number of
units, where an infinity takes the place of the first power of two that does not fit. Two such
numbers compare as their units do, and a sum has the units of the exact sum, cut to the bits that
the format holds. Cutting keeps the order.
-/

set_option autoImplicit false
set_option relaxedAutoImplicit false

namespace LayerCanvas.Binary

open Float.Model (Format UnpackedFloat)
open Float.Model.UnpackedFloat

variable {f : Format} {x y : UnpackedFloat} {m : Nat} {e : Int}

/-! ### Units -/

/-- The first exponent that is too large for a word of a format. -/
def endExponent (f : Format) : Int :=
  2 ^ f.exponentBits - 1 - f.exponentBias - f.mantissaBitsWithoutImplicit

/-- The first power of two that is larger than every finite number, in units. -/
def limitIn (f : Format) : Nat := unitsIn f (2 ^ f.mantissaBitsWithoutImplicit) (endExponent f)

/-- The units of a number, with its sign. -/
def valueIn (f : Format) : UnpackedFloat → Int
  | .notANumber => 0
  | .infinity s => s.apply (limitIn f)
  | .zero _ => 0
  | .finite s m e _ => s.apply (unitsIn f m e)

/-- The numbers that are read from a word of a format. -/
inductive IsNumberIn (f : Format) : UnpackedFloat → Prop
  | infinity (s : Sign) : IsNumberIn f (.infinity s)
  | zero (s : Sign) : IsNumberIn f (.zero s)
  | finite (s : Sign) {m : Nat} {e : Int} (h : Fits f m e) (he : e < endExponent f) :
    IsNumberIn f (.finite s m e h.pos)

theorem limitIn_pos (f : Format) : 0 < limitIn f := unitsIn_pos f _ (Nat.two_pow_pos _)

theorem minExponent_lt_endExponent (hf : 2 ≤ f.exponentBits) : f.minExponent < endExponent f := by
  have hfour : 2 ^ 2 ≤ 2 ^ f.exponentBits := Nat.pow_le_pow_right (by decide) hf
  have hcast : ((2 ^ f.exponentBits : Nat) : Int) = 2 ^ f.exponentBits := by push_cast; rfl
  rw [minExponent_eq, endExponent]
  omega

/-- An exponent is in range if its bits are not the last ones. -/
theorem lt_endExponent_iff (he : f.minExponent ≤ e) :
    e < endExponent f ↔
      (e + f.exponentBias + f.mantissaBitsWithoutImplicit).toNat + 1 < 2 ^ f.exponentBits := by
  have hcast : ((2 ^ f.exponentBits : Nat) : Int) = 2 ^ f.exponentBits := by push_cast; rfl
  rw [minExponent_eq] at he
  rw [endExponent]
  omega

theorem fits_limitIn (hf : 2 ≤ f.exponentBits) :
    Fits f (2 ^ f.mantissaBitsWithoutImplicit) (endExponent f) :=
  ⟨Nat.two_pow_pos _, Nat.pow_lt_pow_right (by decide) (by rw [mantissaBits_eq]; omega),
    (minExponent_lt_endExponent hf).le, Or.inl le_rfl⟩

theorem unitsIn_lt_limitIn (hf : 2 ≤ f.exponentBits) (h : Fits f m e) (he : e < endExponent f) :
    unitsIn f m e < limitIn f := unitsIn_lt_of_lt h (fits_limitIn hf) he

theorem limitIn_le_unitsIn (hf : 2 ≤ f.exponentBits) (h : Fits f m e) (he : ¬ e < endExponent f) :
    limitIn f ≤ unitsIn f m e := by
  have hleast := minExponent_lt_endExponent hf
  exact Nat.mul_le_mul (h.full.resolve_right (by omega))
    (Nat.pow_le_pow_right (by decide) (by omega))

theorem isNumberIn_unpack (hf : 2 ≤ f.exponentBits) {b : BitVec f.numBits}
    (h : UnpackedFloat.unpack f b ≠ .notANumber) : IsNumberIn f (UnpackedFloat.unpack f b) := by
  cases hx : UnpackedFloat.unpack f b with
  | notANumber => exact absurd hx h
  | infinity s => exact .infinity s
  | zero s => exact .zero s
  | finite s m e hm =>
    obtain ⟨hfits, hlast⟩ := fits_of_unpack hx hf
    exact .finite s hfits ((lt_endExponent_iff hfits.least).mpr hlast)

/-! ### Comparing -/

theorem compare_neg (a b : Int) : compare (-a) (-b) = (compare a b).swap := by
  rcases Int.lt_trichotomy a b with hlt | rfl | hgt
  · rw [Int.compare_eq_lt.mpr hlt, Int.compare_eq_gt.mpr (by omega)]
    rfl
  · rw [Int.compare_eq_eq.mpr rfl, Int.compare_eq_eq.mpr rfl]
    rfl
  · rw [Int.compare_eq_gt.mpr hgt, Int.compare_eq_lt.mpr (by omega)]
    rfl

theorem compare_of_lt {a b : Int} (h : a < b) : some (compare a b) = some .lt :=
  congrArg some (Int.compare_eq_lt.mpr h)

theorem compare_of_gt {a b : Int} (h : b < a) : some (compare a b) = some .gt :=
  congrArg some (Int.compare_eq_gt.mpr h)

/-- Numbers compare as their units do. -/
theorem compare_valueIn (hf : 2 ≤ f.exponentBits) (hx : IsNumberIn f x) (hy : IsNumberIn f y) :
    some (compare (valueIn f x) (valueIn f y)) = x.compare y := by
  have hlimit : (0 : Int) < limitIn f := mod_cast limitIn_pos f
  have hrange {m : Nat} {e : Int} (h : Fits f m e) (he : e < endExponent f) :
      (0 : Int) < unitsIn f m e ∧ (unitsIn f m e : Int) < limitIn f :=
    ⟨mod_cast unitsIn_pos f e h.pos, mod_cast unitsIn_lt_limitIn hf h he⟩
  -- Zero lies between the signs, and an infinity beyond `hrange`. Only two finite numbers of one
  -- sign need their units compared.
  cases hx with
  | infinity s =>
    cases hy with
    | infinity s' =>
      cases s <;> cases s' <;> simp only [valueIn, Sign.apply]
      · exact congrArg some (Int.compare_eq_eq.mpr rfl)
      · exact compare_of_lt (by omega)
      · exact compare_of_gt (by omega)
      · exact congrArg some (Int.compare_eq_eq.mpr rfl)
    | zero s' =>
      cases s <;> simp only [valueIn, Sign.apply]
      · exact compare_of_lt (by omega)
      · exact compare_of_gt (by omega)
    | finite s' h he =>
      obtain ⟨hlow, hhigh⟩ := hrange h he
      cases s <;> cases s' <;> simp only [valueIn, Sign.apply]
      · exact compare_of_lt (by omega)
      · exact compare_of_lt (by omega)
      · exact compare_of_gt (by omega)
      · exact compare_of_gt (by omega)
  | zero s =>
    cases hy with
    | infinity s' =>
      cases s' <;> simp only [valueIn, Sign.apply]
      · exact compare_of_gt (by omega)
      · exact compare_of_lt (by omega)
    | zero s' => exact congrArg some (Int.compare_eq_eq.mpr rfl)
    | finite s' h he =>
      obtain ⟨hlow, hhigh⟩ := hrange h he
      cases s' <;> simp only [valueIn, Sign.apply]
      · exact compare_of_gt (by omega)
      · exact compare_of_lt (by omega)
  | finite s h he =>
    obtain ⟨hlow, hhigh⟩ := hrange h he
    cases hy with
    | infinity s' =>
      cases s <;> cases s' <;> simp only [valueIn, Sign.apply]
      · exact compare_of_gt (by omega)
      · exact compare_of_lt (by omega)
      · exact compare_of_gt (by omega)
      · exact compare_of_lt (by omega)
    | zero s' =>
      cases s <;> simp only [valueIn, Sign.apply]
      · exact compare_of_lt (by omega)
      · exact compare_of_gt (by omega)
    | finite s' h' he' =>
      obtain ⟨hlow', hhigh'⟩ := hrange h' he'
      cases s <;> cases s' <;> simp only [valueIn, Sign.apply, UnpackedFloat.compare]
      · rw [compare_neg, compare_unitsIn h h']
      · exact compare_of_lt (by omega)
      · exact compare_of_gt (by omega)
      · rw [compare_unitsIn h h']

/-! ### What a word holds -/

/-- A number of units as a word holds it. -/
def heldIn (f : Format) (n : Nat) : Nat := min (roundedIn f n) (limitIn f)

theorem heldIn_zero (f : Format) : heldIn f 0 = 0 := by
  have hcut : roundedIn f 0 = 0 := by
    rw [roundedIn, Nat.log2_zero, Nat.zero_sub, cutBy_zero, Nat.zero_mul]
  rw [heldIn, hcut, Nat.zero_min]

theorem heldIn_mono (f : Format) {n n' : Nat} (h : n ≤ n') : heldIn f n ≤ heldIn f n' :=
  min_le_min_right _ (roundedIn_mono f h)

/-- A number of units with a sign, as a word holds it. -/
def heldIntIn (f : Format) (d : Int) : Int :=
  if d < 0 then -(heldIn f d.natAbs : Int) else heldIn f d.natAbs

theorem heldIntIn_mono (f : Format) {d d' : Int} (h : d ≤ d') : heldIntIn f d ≤ heldIntIn f d' := by
  unfold heldIntIn
  split_ifs with hneg hneg' hneg'
  · have hle := heldIn_mono f (show d'.natAbs ≤ d.natAbs by omega)
    omega
  · omega
  · omega
  · have hle := heldIn_mono f (show d.natAbs ≤ d'.natAbs by omega)
    omega

theorem heldIntIn_zero (f : Format) : heldIntIn f 0 = 0 := congrArg Nat.cast (heldIn_zero f)

theorem heldIntIn_apply (f : Format) (s : Sign) (n : Nat) :
    heldIntIn f (s.apply n) = s.apply (heldIn f n) := by
  cases s with
  | positive =>
    have hpos : ¬ (n : Int) < 0 := by omega
    rw [Sign.apply, heldIntIn, if_neg hpos, Int.natAbs_natCast, Sign.apply]
  | negative =>
    rcases Nat.eq_zero_or_pos n with rfl | hn
    · rw [heldIn_zero]
      exact heldIntIn_zero f
    · have hneg : -(n : Int) < 0 := by omega
      rw [Sign.apply, heldIntIn, if_pos hneg, Int.natAbs_neg, Int.natAbs_natCast, Sign.apply]

/-- A number that a word holds is held as it is. -/
theorem heldIntIn_valueIn (hf : 2 ≤ f.exponentBits) (h : IsNumberIn f x) :
    heldIntIn f (valueIn f x) = valueIn f x := by
  have hheld {m : Nat} {e : Int} (h : Fits f m e) (hle : unitsIn f m e ≤ limitIn f) :
      heldIn f (unitsIn f m e) = unitsIn f m e := by
    rw [heldIn, roundedIn_unitsIn h, Nat.min_eq_left hle]
  cases h with
  | infinity s => rw [valueIn, heldIntIn_apply, limitIn, hheld (fits_limitIn hf) le_rfl]
  | zero s => exact heldIntIn_zero f
  | finite s h he => rw [valueIn, heldIntIn_apply, hheld h (unitsIn_lt_limitIn hf h he).le]

/-- The units of what is packed into a word and read again. -/
def packedValue (f : Format) (x : UnpackedFloat) : Int :=
  valueIn f (UnpackedFloat.unpack f (UnpackedFloat.pack f x))

/-- What is packed is read again, unless it is too large. -/
theorem unpack_pack_fits (h : Fits f m e) (s : Sign) :
    UnpackedFloat.unpack f (UnpackedFloat.pack f (.finite s m e h.pos)) =
      if e < endExponent f then .finite s m e h.pos else .infinity s := by
  have hrange := lt_endExponent_iff h.least
  split_ifs with hlarge
  · exact unpack_pack_of_fits h s (hrange.mp hlarge)
  · have hpack : UnpackedFloat.pack f (.finite s m e h.pos) = packedInfinity f s := by
      unfold UnpackedFloat.pack
      exact if_pos (by omega)
    rw [hpack, unpack_packedInfinity]

theorem packedValue_zero (f : Format) (s : Sign) : packedValue f (.zero s) = 0 := by
  rw [packedValue, show UnpackedFloat.pack f (.zero s) = packedZero f s from rfl,
    unpack_packedZero, valueIn]

theorem packedValue_fits (hf : 2 ≤ f.exponentBits) (h : Fits f m e) (s : Sign) :
    packedValue f (.finite s m e h.pos) = heldIntIn f (s.apply (unitsIn f m e)) := by
  rw [heldIntIn_apply, heldIn, roundedIn_unitsIn h, packedValue, unpack_pack_fits h]
  split_ifs with he
  · rw [valueIn, Nat.min_eq_left (unitsIn_lt_limitIn hf h he).le]
  · rw [valueIn, Nat.min_eq_right (limitIn_le_unitsIn hf h he)]

theorem packedValue_round (hf : 2 ≤ f.exponentBits) (s : Sign) {n : Nat} (hn : 0 < n)
    (he : f.minExponent ≤ e) :
    packedValue f (.round f s n e) = heldIntIn f (s.apply (unitsIn f n e)) := by
  obtain ⟨m, e', hfits, hround, hunits⟩ := round_unitsIn f s hn he
  rw [hround, packedValue_fits hf hfits, hunits, heldIntIn_apply, heldIntIn_apply, heldIn, ← hunits,
    roundedIn_unitsIn hfits, hunits, heldIn]

/-! ### Sums -/

theorem apply_unitsIn (f : Format) (s : Sign) (m : Nat) (e : Int) :
    s.apply (unitsIn f m e) = s.apply m * 2 ^ (e - f.minExponent).toNat := by
  cases s <;> simp [Sign.apply, unitsIn]

theorem packedValue_normalize (hf : 2 ≤ f.exponentBits) (d : Int) (he : f.minExponent ≤ e) :
    packedValue f (.normalize f d e .positive) =
      heldIntIn f (d * 2 ^ (e - f.minExponent).toNat) := by
  unfold UnpackedFloat.normalize
  cases hd : compare d 0 with
  | lt =>
    have hneg : d < 0 := Int.compare_eq_lt.mp hd
    rw [packedValue_round hf .negative (by omega) he, apply_unitsIn]
    congr 2
    rw [Sign.apply]
    omega
  | eq =>
    rw [Int.compare_eq_eq.mp hd, Int.zero_mul, packedValue_zero, heldIntIn_zero]
  | gt =>
    have hpos : 0 < d := Int.compare_eq_gt.mp hd
    rw [packedValue_round hf .positive (by omega) he, apply_unitsIn]
    congr 2
    rw [Sign.apply]
    omega

theorem apply_decreaseExponent (s : Sign) (m : Nat) {low : Int} (hlow : f.minExponent ≤ low)
    (hle : low ≤ e) :
    s.apply (decreaseExponent m e low).1 * 2 ^ (low - f.minExponent).toNat =
      s.apply (unitsIn f m e) := by
  have hpower : (e - low).toNat + (low - f.minExponent).toNat = (e - f.minExponent).toNat := by
    omega
  rw [apply_unitsIn, ← hpower, Int.pow_add]
  cases s <;> simp [decreaseExponent, Sign.apply, Nat.shiftLeft_eq] <;> ring

/-- A sum of finite numbers is a number, though it may be infinite. -/
theorem add_ne_notANumber (f : Format) (hx : x.isFinite = true) (hy : y.isFinite = true) :
    UnpackedFloat.add f x y ≠ .notANumber := by
  cases x with
  | notANumber => cases hx
  | infinity s => cases hx
  | zero s =>
    cases y with
    | notANumber => cases hy
    | infinity s' => cases hy
    | zero s' => cases s <;> cases s' <;> exact nofun
    | finite s' m e hm => exact nofun
  | finite s m e hm =>
    cases y with
    | notANumber => cases hy
    | infinity s' => cases hy
    | zero s' => exact nofun
    | finite s' m' e' hm' =>
      unfold UnpackedFloat.add UnpackedFloat.normalize
      simp only
      split
      · exact round_ne_notANumber f _ _ _
      · exact nofun
      · exact round_ne_notANumber f _ _ _

/-- A sum of finite numbers is the exact sum, as a word holds it. -/
theorem packedValue_add (hf : 2 ≤ f.exponentBits) (hx : IsNumberIn f x) (hy : IsNumberIn f y)
    (hx' : x.isFinite = true) (hy' : y.isFinite = true) :
    packedValue f (.add f x y) = heldIntIn f (valueIn f x + valueIn f y) := by
  cases hx with
  | infinity s => cases hx'
  | zero s =>
    cases hy with
    | infinity s' => cases hy'
    | zero s' =>
      have hadd : ∃ s'', UnpackedFloat.add f (.zero s) (.zero s') = .zero s'' := by
        unfold UnpackedFloat.add
        simp only
        split_ifs
        · exact ⟨s, rfl⟩
        · exact ⟨.positive, rfl⟩
      obtain ⟨s'', hs⟩ := hadd
      rw [hs, packedValue_zero]
      exact (heldIntIn_zero f).symm
    | finite s' h he =>
      show packedValue f (.finite s' _ _ h.pos) = _
      rw [packedValue_fits hf h, valueIn, valueIn, Int.zero_add]
  | finite s h he =>
    cases hy with
    | infinity s' => cases hy'
    | zero s' =>
      show packedValue f (.finite s _ _ h.pos) = _
      rw [packedValue_fits hf h, valueIn, valueIn, Int.add_zero]
    | @finite s' m' e' h' he' =>
      rename_i m e
      -- At the smaller of the two exponents the sum is exact.
      have hleast := h.least
      have hleast' := h'.least
      have hlow : f.minExponent ≤ min e e' := by omega
      show packedValue f (.normalize f
        (s.apply (decreaseExponent m e (min e e')).1 +
          s'.apply (decreaseExponent m' e' (min e e')).1) (min e e') .positive) = _
      rw [packedValue_normalize hf _ hlow, Int.add_mul, apply_decreaseExponent s m hlow (by omega),
        apply_decreaseExponent s' m' hlow (by omega), valueIn, valueIn]

/-! ### Differences -/

theorem apply_neg (s : Sign) (d : Int) : (-s).apply d = -s.apply d := by
  cases s
  · exact (Int.neg_neg d).symm
  · rfl

theorem IsNumberIn.neg (h : IsNumberIn f x) : IsNumberIn f x.neg := by
  cases h with
  | infinity s => exact .infinity (-s)
  | zero s => exact .zero (-s)
  | finite s h he => exact .finite (-s) h he

theorem valueIn_neg (f : Format) (x : UnpackedFloat) : valueIn f x.neg = -valueIn f x := by
  cases x with
  | infinity s => exact apply_neg s _
  | finite s m e hm => exact apply_neg s _
  | _ => rfl

/-- Taking away is adding the opposite. -/
theorem sub_eq_add_neg (f : Format) (x y : UnpackedFloat) :
    UnpackedFloat.sub f x y = UnpackedFloat.add f x y.neg := by
  cases x with
  | finite s m e hm =>
    cases y with
    | finite s' m' e' hm' =>
      simp only [UnpackedFloat.sub, UnpackedFloat.add, UnpackedFloat.neg, apply_neg,
        Int.sub_eq_add_neg]
    | _ => rfl
  | _ => cases y <;> rfl

theorem isFinite_neg_eq (x : UnpackedFloat) : x.neg.isFinite = x.isFinite := by cases x <;> rfl

/-- A difference of finite numbers is a number, though it may be infinite. -/
theorem sub_ne_notANumber (f : Format) (hx : x.isFinite = true) (hy : y.isFinite = true) :
    UnpackedFloat.sub f x y ≠ .notANumber := by
  rw [sub_eq_add_neg]
  exact add_ne_notANumber f hx (isFinite_neg_eq y ▸ hy)

/-- A difference of finite numbers is the exact difference, as a word holds it. -/
theorem packedValue_sub (hf : 2 ≤ f.exponentBits) (hx : IsNumberIn f x) (hy : IsNumberIn f y)
    (hx' : x.isFinite = true) (hy' : y.isFinite = true) :
    packedValue f (.sub f x y) = heldIntIn f (valueIn f x - valueIn f y) := by
  rw [sub_eq_add_neg, packedValue_add hf hx hy.neg hx' (isFinite_neg_eq y ▸ hy'), valueIn_neg,
    Int.sub_eq_add_neg]

end LayerCanvas.Binary
