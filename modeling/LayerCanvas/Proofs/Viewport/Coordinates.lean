import LayerCanvas.Proofs.Config
import LayerCanvas.Proofs.Viewport.Hull
import Mathlib.Tactic.FieldSimp
import Mathlib.Tactic.Ring

/-!
The canvas and the screen, in exact numbers. A view places every point of the canvas on the screen,
and the way back undoes it: that takes a scale which is no zero and numbers which are rational, and
operations with finite numbers never lead to anything else. The affine map and the matrix that the
painters are given say the same as the view itself, so what is painted at a point of the screen is
what a press there is taken for. And a zoom about a point moves the offset along with the scale, be
it cut short at a limit or not, so that the point stays.
-/

set_option autoImplicit false
set_option relaxedAutoImplicit false

namespace LayerCanvas

/-! ### Finite operations -/

section

variable {C R : Type} [Scalar C]

/-- The position and the size of a node are finite. -/
def Node.isFinite (n : Node C R) : Bool :=
  n.origin.isFinite && Scalar.isFinite n.width && Scalar.isFinite n.height

/-- All numbers of an operation are finite. -/
def Viewport.Operation.IsFinite : Viewport.Operation C R → Prop
  | .setTransform t => t.offset.isFinite = true ∧ Scalar.isFinite t.scale = true
  | .zoom _ center => ∀ c ∈ center, c.isFinite = true
  | .panBy dx dy => Scalar.isFinite dx = true ∧ Scalar.isFinite dy = true
  | .fit nodes width height =>
    (∀ n ∈ nodes, n.isFinite = true) ∧ Scalar.isFinite width = true ∧
      Scalar.isFinite height = true
  | .startPan pointer | .updatePan pointer => pointer.isFinite = true
  | .reset | .endPan | .setLocked _ => True

end

variable {R : Type}

theorem Node.isFinite_rectangle {n : Node Exact R} (h : n.isFinite = true) :
    n.rectangle.isFinite = true := by
  simp only [isFinite, Bool.and_eq_true, Point.isFinite_iff_coordinates] at h
  obtain ⟨⟨⟨hx, hy⟩, hwidth⟩, hheight⟩ := h
  simp only [Bounds.isFinite, rectangle, Bool.and_eq_true, Point.isFinite_iff_coordinates]
  exact ⟨⟨hx, hy⟩, Exact.isFinite_add hx hwidth, Exact.isFinite_add hy hheight⟩

/-- The middle of a finite rectangle is finite. -/
theorem Bounds.isFinite_center {b : Bounds Exact} (h : b.isFinite = true) :
    b.center.isFinite = true := by
  obtain ⟨left, top, right, bottom, rfl⟩ := isFinite_iff.mp h
  simp only [center, Exact.two_eq, Exact.rational_add, Exact.rational_div _ _ two_ne_zero]
  exact Point.isFinite_iff.mpr ⟨_, _, rfl⟩

/-! ### There and back -/

namespace Transform

variable {t : Transform Exact} {p : Point Exact}

/-- A transform by rational numbers that can be undone. -/
structure IsExact (t : Transform Exact) : Prop where
  offset : t.offset.isFinite = true
  scale : Scalar.isPositive t.scale = true

theorem IsExact.exists_rational (h : t.IsExact) :
    ∃ x y scale : ℚ, t = ⟨⟨x, y⟩, scale⟩ ∧ 0 < scale := by
  obtain ⟨offset, scale⟩ := t
  obtain ⟨x, y, hoffset⟩ := Point.isFinite_iff.mp h.offset
  obtain ⟨q, hscale, hq⟩ := Exact.isPositive_iff.mp h.scale
  exact ⟨x, y, q, congrArg₂ Transform.mk hoffset hscale, hq⟩

theorem isExact_identity : (identity : Transform Exact).IsExact where
  offset := Point.isFinite_iff.mpr ⟨0, 0, rfl⟩
  scale := Exact.isPositive_iff.mpr ⟨1, rfl, one_pos⟩

theorem toCanvas_toScreen (h : t.IsExact) (hp : p.isFinite = true) :
    t.toCanvas (t.toScreen p) = p := by
  obtain ⟨x, y, scale, rfl, hscale⟩ := h.exists_rational
  obtain ⟨px, py, rfl⟩ := Point.isFinite_iff.mp hp
  simp only [toScreen, toCanvas, Exact.rational_mul, Exact.rational_add, Exact.rational_sub,
    Exact.rational_div _ _ hscale.ne', add_sub_cancel_right, mul_div_cancel_right₀ _ hscale.ne']

theorem toScreen_toCanvas (h : t.IsExact) (hp : p.isFinite = true) :
    t.toScreen (t.toCanvas p) = p := by
  obtain ⟨x, y, scale, rfl, hscale⟩ := h.exists_rational
  obtain ⟨px, py, rfl⟩ := Point.isFinite_iff.mp hp
  simp only [toScreen, toCanvas, Exact.rational_mul, Exact.rational_add, Exact.rational_sub,
    Exact.rational_div _ _ hscale.ne', div_mul_cancel₀ _ hscale.ne', sub_add_cancel]

/-- The matrix of a transform does what the transform does. -/
theorem apply_matrix (h : t.IsExact) (hp : p.isFinite = true) :
    (t.matrix : Affine Exact).apply p = t.toScreen p := by
  obtain ⟨x, y, scale, rfl, -⟩ := h.exists_rational
  obtain ⟨px, py, rfl⟩ := Point.isFinite_iff.mp hp
  simp only [matrix, Affine.apply, toScreen, Precision.widen, id, Exact.zero_eq,
    Exact.rational_mul, Exact.rational_add, zero_mul, add_zero, zero_add, mul_comm scale]

/-- The product of a shift and a scaling is the matrix. -/
theorem affine_eq_matrix (h : t.IsExact) : (t.affine : Affine Exact) = t.matrix := by
  obtain ⟨x, y, scale, rfl, -⟩ := h.exists_rational
  simp only [affine, matrix, Affine.mul, Affine.translate, Affine.scale, Precision.widen, id,
    Exact.zero_eq, Exact.one_eq, Exact.rational_mul, Exact.rational_add, zero_mul, mul_zero,
    add_zero, zero_add, one_mul]

end Transform

/-! ### Views -/

namespace Viewport

variable {v v' : Viewport Exact}

/-- A view by rational numbers. -/
structure IsExact (v : Viewport Exact) : Prop where
  transform : v.transform.IsExact
  pan : ∀ anchor ∈ v.pan, anchor.pointer.isFinite = true ∧ anchor.offset.isFinite = true

theorem isExact_new (config : ViewConfig Exact) : (new config).IsExact where
  transform := Transform.isExact_identity
  pan := by
    intro anchor hanchor
    cases hanchor

/-- What is brought within the limits is positive. -/
theorem isPositive_clampScale (h : v.config.Limited) (scale : Exact) :
    Scalar.isPositive (v.clampScale scale) = true := by
  obtain ⟨hmin, hmax⟩ := clampScale_bounds h scale
  exact Limits.isPositive_of_between _ _ _ h.min h.max hmin hmax

theorem isExact_zoom? (hlimited : v.config.Limited) (hv : v.IsExact) {direction : ZoomDirection}
    {center : Option (Point Exact)} (hcenter : ∀ c ∈ center, c.isFinite = true)
    (hzoom : v.zoom? direction center = some v') : v'.IsExact := by
  obtain ⟨hnew, hkept, hoffset⟩ := transform_of_zoom? hzoom
  have hscale : Scalar.isPositive v'.transform.scale = true := by
    rw [hnew]
    exact isPositive_clampScale hlimited _
  have hpan := (zoom?_frame hzoom).2
  refine ⟨⟨?_, hscale⟩, hpan ▸ hv.pan⟩
  cases center with
  | none =>
    rw [hkept rfl]
    exact hv.transform.offset
  | some c =>
    obtain ⟨hcx, hcy⟩ := Point.isFinite_iff_coordinates.mp (hcenter c rfl)
    obtain ⟨hx, hy⟩ := Point.isFinite_iff_coordinates.mp hv.transform.offset
    have hratio := Exact.isFinite_div (Exact.isFinite_of_isPositive hscale) hv.transform.scale
    rw [hoffset c rfl]
    exact Point.isFinite_iff_coordinates.mpr
      ⟨Exact.isFinite_sub hcx (Exact.isFinite_mul (Exact.isFinite_sub hcx hx) hratio),
        Exact.isFinite_sub hcy (Exact.isFinite_mul (Exact.isFinite_sub hcy hy) hratio)⟩

/-- Fitting leads to rational numbers even where the size of the view or that of the bounds is zero:
the scale is brought within the limits before it is used. -/
theorem isExact_fit? (hlimited : v.config.Limited)
    (hpadding : Scalar.isFinite v.config.fitPadding = true) (hv : v.IsExact)
    {nodes : List (Node Exact R)} (hnodes : ∀ n ∈ nodes, n.isFinite = true) {width height : Exact}
    (hwidth : Scalar.isFinite width = true) (hheight : Scalar.isFinite height = true)
    (hfit : v.fit? nodes width height = some v') : v'.IsExact := by
  have hpan := (fit?_frame hfit).2
  unfold fit? at hfit
  split_ifs at hfit
  obtain ⟨bounds, hbounds, rfl⟩ := Option.map_eq_some_iff.mp hfit
  have hfinite : bounds.isFinite = true :=
    Bounds.isFinite_of_ofNodes? hpadding (fun n hn ↦ Node.isFinite_rectangle (hnodes n hn)) hbounds
  obtain ⟨hx, hy⟩ := Point.isFinite_iff_coordinates.mp (Bounds.isFinite_center hfinite)
  have htwo : Scalar.isPositive (2 : Exact) = true :=
    Exact.isPositive_iff.mpr ⟨2, rfl, two_pos⟩
  have hscale := isPositive_clampScale hlimited
    (Scalar.smaller (width / bounds.width) (height / bounds.height) * v.config.fitMargin)
  have hscale' := Exact.isFinite_of_isPositive hscale
  refine ⟨⟨Point.isFinite_iff_coordinates.mpr ⟨?_, ?_⟩, hscale⟩, hpan ▸ hv.pan⟩
  · exact Exact.isFinite_sub (Exact.isFinite_div hwidth htwo) (Exact.isFinite_mul hx hscale')
  · exact Exact.isFinite_sub (Exact.isFinite_div hheight htwo) (Exact.isFinite_mul hy hscale')

theorem isExact_panBy (hsensitivity : Scalar.isFinite v.config.panSensitivity = true)
    (hv : v.IsExact) {dx dy : Exact} (hdx : Scalar.isFinite dx = true)
    (hdy : Scalar.isFinite dy = true) : (v.panBy dx dy).IsExact := by
  unfold panBy
  split_ifs
  · exact hv
  · obtain ⟨hx, hy⟩ := Point.isFinite_iff_coordinates.mp hv.transform.offset
    refine ⟨⟨Point.isFinite_iff_coordinates.mpr ⟨?_, ?_⟩, hv.transform.scale⟩, hv.pan⟩
    · exact Exact.isFinite_add hx (Exact.isFinite_mul hdx hsensitivity)
    · exact Exact.isFinite_add hy (Exact.isFinite_mul hdy hsensitivity)

theorem isExact_updatePan (hv : v.IsExact) {pointer : Point Exact}
    (hpointer : pointer.isFinite = true) : (v.updatePan pointer).IsExact := by
  have hpan := (v.updatePan_frame pointer).2
  refine ⟨?_, hpan ▸ hv.pan⟩
  unfold updatePan
  split_ifs
  · exact hv.transform
  · cases hanchor : v.pan with
    | none => exact hv.transform
    | some anchor =>
      obtain ⟨hbegun, hoffset⟩ := hv.pan anchor hanchor
      obtain ⟨hpx, hpy⟩ := Point.isFinite_iff_coordinates.mp hbegun
      obtain ⟨hox, hoy⟩ := Point.isFinite_iff_coordinates.mp hoffset
      obtain ⟨hx, hy⟩ := Point.isFinite_iff_coordinates.mp hpointer
      refine ⟨Point.isFinite_iff_coordinates.mpr ⟨?_, ?_⟩, hv.transform.scale⟩
      · exact Exact.isFinite_add hox (Exact.isFinite_sub hx hpx)
      · exact Exact.isFinite_add hoy (Exact.isFinite_sub hy hpy)

/-- An operation with finite numbers leads from a view by rational numbers to another one. -/
theorem IsExact.apply (hlimited : v.config.Limited)
    (hsensitivity : Scalar.isFinite v.config.panSensitivity = true)
    (hpadding : Scalar.isFinite v.config.fitPadding = true) (hv : v.IsExact)
    {operation : Operation Exact R} (hfinite : operation.IsFinite) :
    (v.apply operation).IsExact := by
  -- Zooming, fitting and panning compute. The rest takes a number as it is, or none at all.
  cases operation with
  | setTransform t =>
    dsimp only [Viewport.apply, setTransform]
    split_ifs
    · exact hv
    · exact ⟨⟨hfinite.1, isPositive_clampScale hlimited t.scale⟩, hv.pan⟩
  | zoom direction center =>
    dsimp only [Viewport.apply]
    cases hzoom : v.zoom? direction center with
    | none => exact hv
    | some v' => exact isExact_zoom? hlimited hv hfinite hzoom
  | panBy dx dy => exact isExact_panBy hsensitivity hv hfinite.1 hfinite.2
  | reset =>
    dsimp only [Viewport.apply, reset]
    split_ifs
    · exact hv
    · exact ⟨Transform.isExact_identity, hv.pan⟩
  | fit nodes width height =>
    obtain ⟨hnodes, hwidth, hheight⟩ := hfinite
    dsimp only [Viewport.apply]
    cases hfit : v.fit? nodes width height with
    | none => exact hv
    | some v' => exact isExact_fit? hlimited hpadding hv hnodes hwidth hheight hfit
  | startPan pointer =>
    dsimp only [Viewport.apply, startPan?]
    split_ifs
    · exact hv
    · refine ⟨hv.transform, ?_⟩
      intro anchor hanchor
      cases hanchor
      exact ⟨hfinite, hv.transform.offset⟩
  | updatePan pointer => exact isExact_updatePan hv hfinite
  | endPan =>
    refine ⟨hv.transform, ?_⟩
    intro anchor hanchor
    cases hanchor
  | setLocked locked =>
    refine ⟨hv.transform, ?_⟩
    cases locked with
    | false => exact hv.pan
    | true =>
      intro anchor hanchor
      cases hanchor

/-! ### Zooming about a point -/

/-- A zoom about a point keeps the canvas point that appears there, whatever scale it leads to. -/
theorem toCanvas_of_zoom? (hv : v.IsExact) (hv' : v'.IsExact) {direction : ZoomDirection}
    {c : Point Exact} (hc : c.isFinite = true)
    (hzoom : v.zoom? direction (some c) = some v') :
    v'.transform.toCanvas c = v.transform.toCanvas c := by
  have hoffset := (transform_of_zoom? hzoom).2.2 c rfl
  obtain ⟨x, y, old, hold, hpositive⟩ := hv.transform.exists_rational
  obtain ⟨x', y', new, hnew, hpositive'⟩ := hv'.transform.exists_rational
  obtain ⟨cx, cy, rfl⟩ := Point.isFinite_iff.mp hc
  simp only [hold, hnew, Exact.rational_sub, Exact.rational_mul,
    Exact.rational_div _ _ hpositive.ne', Point.mk.injEq, Exact.rational_inj] at hoffset
  obtain ⟨rfl, rfl⟩ := hoffset
  rw [hold, hnew]
  simp only [Transform.toCanvas, Exact.rational_sub, Exact.rational_div _ _ hpositive.ne',
    Exact.rational_div _ _ hpositive'.ne', Point.mk.injEq, Exact.rational_inj]
  have hold' := hpositive.ne'
  have hnew' := hpositive'.ne'
  constructor
  · field_simp
    ring
  · field_simp
    ring

/-- Any zooms about one point keep the canvas point that appears there. -/
theorem toCanvas_applyAll_zoom (hlimited : v.config.Limited) (hv : v.IsExact) {c : Point Exact}
    (hc : c.isFinite = true) (directions : List ZoomDirection) :
    (v.applyAll (directions.map fun direction ↦
      (.zoom direction (some c) : Operation Exact R))).transform.toCanvas c =
        v.transform.toCanvas c := by
  induction directions generalizing v with
  | nil => rfl
  | cons direction rest ih =>
    rw [List.map_cons, applyAll, List.foldl_cons]
    cases hzoom : v.zoom? direction (some c) with
    | none =>
      rw [apply, hzoom, Option.getD_none]
      exact ih hlimited hv
    | some v' =>
      have hcenter : ∀ c' ∈ some c, c'.isFinite = true := by
        rintro c' ⟨⟩
        exact hc
      have hv' := isExact_zoom? hlimited hv hcenter hzoom
      have hconfig : v'.config = v.config := by
        have hkept := (v.reaches_apply (.zoom direction (some c) : Operation Exact R)).1
        rwa [apply, hzoom, Option.getD_some] at hkept
      rw [apply, hzoom, Option.getD_some, ← toCanvas_of_zoom? hv hv' hc hzoom]
      exact ih (hconfig ▸ hlimited) hv'

/-! ### Runs -/

/-- With limits that pass their check, a view that any operations with finite numbers lead to is one
by rational numbers. -/
theorem isExact_applyAll {config : ViewConfig Exact}
    (hconfig : (config.validate : Except (ConfigError Exact Exact) Unit) = .ok ())
    (operations : List (Operation Exact R)) (hfinite : ∀ op ∈ operations, op.IsFinite) :
    ((new config).applyAll operations).config = config ∧ config.Limited ∧
      ((new config).applyAll operations).IsExact := by
  obtain ⟨hmin, hmax, hordered⟩ := ViewConfig.scales_of_validate hconfig
  obtain ⟨hsensitivity, -, hpadding, -⟩ := ViewConfig.fitting_of_validate hconfig
  have hlimited : config.Limited := ⟨hmin, hmax, hordered⟩
  have hrun := applyAll_induction (P := fun v ↦ v.config = config ∧ v.IsExact)
    (Q := Operation.IsFinite) (fun v operation hoperation ⟨hkept, hv⟩ ↦ ?_) operations hfinite
    ⟨rfl, isExact_new config⟩
  · exact ⟨hrun.1, hlimited, hrun.2⟩
  · subst hkept
    exact ⟨(v.reaches_apply operation).1,
      hv.apply hlimited (Exact.isFinite_of_isPositive hsensitivity) hpadding hoperation⟩

/-- In exact numbers, with limits that pass their check and after any operations with finite
numbers, the canvas and the screen are mapped to each other both ways without loss. The affine map
and the matrix that the painters work with place every point where the view places it, so a press
where a point is painted is taken for a press on that point. And a zoom about a point, or any number
of them, keeps the canvas point that appears there. -/
theorem coordinates_agree {config : ViewConfig Exact}
    (hconfig : (config.validate : Except (ConfigError Exact Exact) Unit) = .ok ())
    (operations : List (Operation Exact R)) (hfinite : ∀ op ∈ operations, op.IsFinite) :
    let v := (new config).applyAll operations
    let affine : Affine Exact := v.transform.affine
    let matrix : Affine Exact := v.transform.matrix
    ∀ p : Point Exact, p.isFinite = true →
      (v.transform.toCanvas (v.transform.toScreen p) = p ∧
        v.transform.toScreen (v.transform.toCanvas p) = p) ∧
      (affine.apply p = v.transform.toScreen p ∧ matrix.apply p = v.transform.toScreen p) ∧
      (v.transform.toCanvas (affine.apply p) = p ∧ v.transform.toCanvas (matrix.apply p) = p) ∧
      (∀ direction v', v.zoom? direction (some p) = some v' →
        v'.transform.toCanvas p = v.transform.toCanvas p) ∧
      ∀ directions : List ZoomDirection,
        (v.applyAll (directions.map fun direction ↦
          (.zoom direction (some p) : Operation Exact R))).transform.toCanvas p =
            v.transform.toCanvas p := by
  intro v affine matrix p hp
  obtain ⟨hkept, hlimited, hv⟩ := isExact_applyAll hconfig operations hfinite
  have hlimited' : v.config.Limited := hkept ▸ hlimited
  have hcenter : ∀ c ∈ some p, c.isFinite = true := by
    rintro c ⟨⟩
    exact hp
  have hmatrix : matrix.apply p = v.transform.toScreen p := Transform.apply_matrix hv.transform hp
  have haffine : affine.apply p = v.transform.toScreen p := by
    rw [show affine = matrix from Transform.affine_eq_matrix hv.transform]
    exact hmatrix
  have hback := Transform.toCanvas_toScreen hv.transform hp
  refine ⟨⟨hback, Transform.toScreen_toCanvas hv.transform hp⟩, ⟨haffine, hmatrix⟩, ⟨?_, ?_⟩, ?_,
    toCanvas_applyAll_zoom hlimited' hv hp⟩
  · rw [haffine]
    exact hback
  · rw [hmatrix]
    exact hback
  · intro direction v' hzoom
    exact toCanvas_of_zoom? hv (isExact_zoom? hlimited' hv hcenter hzoom) hp hzoom

/-- With the usual limits a view is scaled to almost three, shifted, and zoomed about a point. The
zoom is cut short at three, and the canvas point stays; where it was painted it is pressed. -/
theorem coordinates_agree_zoomed :
    ∃ (operations : List (Operation Exact Exact)) (v v' : Viewport Exact),
      (ViewConfig.standard.validate : Except (ConfigError Exact Exact) Unit) = .ok () ∧
        (∀ op ∈ operations, op.IsFinite) ∧ v = (new .standard).applyAll operations ∧
          v.zoom? .inward (some ⟨400, 300⟩) = some v' ∧ v'.transform.scale = 3 ∧
            v.transform.scale = (59 / 20 : ℚ) ∧
              v'.transform.toCanvas ⟨400, 300⟩ = v.transform.toCanvas ⟨400, 300⟩ ∧
                v.transform.toCanvas ((v.transform.affine : Affine Exact).apply ⟨400, 300⟩) =
                  ⟨400, 300⟩ := by
  let operations : List (Operation Exact Exact) :=
    [.setTransform ⟨⟨37, -120⟩, (59 / 20 : ℚ)⟩, .panBy 5 (-3)]
  have hconfig : (ViewConfig.standard.validate : Except (ConfigError Exact Exact) Unit) =
      .ok () := by decide +kernel
  have hfinite : ∀ op ∈ operations, op.IsFinite := by
    refine List.forall_mem_cons.mpr ⟨?_, List.forall_mem_cons.mpr ⟨?_, List.forall_mem_nil _⟩⟩
    · exact ⟨by decide +kernel, by decide +kernel⟩
    · exact ⟨by decide +kernel, by decide +kernel⟩
  obtain ⟨v', hv'⟩ : ∃ v', ((new .standard).applyAll operations).zoom? .inward
      (some ⟨400, 300⟩) = some v' := Option.isSome_iff_exists.mp (by decide +kernel)
  have hcut : (((new .standard).applyAll operations).zoom? .inward (some ⟨400, 300⟩)).map
      (fun v' ↦ v'.transform.scale) = some 3 := by decide +kernel
  rw [hv', Option.map_some, Option.some.injEq] at hcut
  obtain ⟨-, -, ⟨hpressed, -⟩, hzoom, -⟩ :=
    coordinates_agree hconfig operations hfinite ⟨400, 300⟩ (by decide +kernel)
  exact ⟨operations, _, v', hconfig, hfinite, rfl, hv', hcut, by decide +kernel,
    hzoom .inward v' hv', hpressed⟩

end Viewport

end LayerCanvas
