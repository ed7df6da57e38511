import LayerCanvas.Proofs.Viewport.Coordinates

/-!
Fitting a view to nodes, in exact numbers. The view is centred on the bounds of the nodes at a scale
that makes them as large as the margin allows. If that scale is not below the lower limit, then
keeping it within the limits can only make it smaller, so no node sticks out of the view: not when
the upper limit cuts it down, and not along the axis that has room to spare.
-/

set_option autoImplicit false
set_option relaxedAutoImplicit false

namespace LayerCanvas

variable {R : Type}

/-- The settings that a view is fitted by, if they pass their check. -/
theorem ViewConfig.exists_rational {config : ViewConfig Exact}
    (h : (config.validate : Except (ConfigError Exact Exact) Unit) = .ok ()) :
    ∃ low high margin padding : ℚ, config.minScale = low ∧ config.maxScale = high ∧
      config.fitMargin = margin ∧ config.fitPadding = padding ∧ 0 < low ∧ 0 < high ∧
        0 ≤ padding := by
  obtain ⟨hmin, hmax, -⟩ := scales_of_validate h
  obtain ⟨-, hmargin, hpadding, hnonneg⟩ := fitting_of_validate h
  obtain ⟨low, hlow, hlow'⟩ := Exact.isPositive_iff.mp hmin
  obtain ⟨high, hhigh, hhigh'⟩ := Exact.isPositive_iff.mp hmax
  obtain ⟨margin, hm, -⟩ := Exact.isPositive_iff.mp hmargin
  obtain ⟨padding, hpad⟩ := Exact.isFinite_iff.mp hpadding
  rw [hpad, Exact.zero_eq, Exact.rational_lt, not_lt] at hnonneg
  exact ⟨low, high, margin, padding, hlow, hhigh, hm, hpad, hlow', hhigh', hnonneg⟩

/-! ### Nodes with a size -/

theorem Node.contains_iff {n : Node Exact R} {p : Point Exact} :
    n.contains p = true ↔
      (n.rectangle.min.x ≤ p.x ∧ p.x ≤ n.rectangle.max.x) ∧
        n.rectangle.min.y ≤ p.y ∧ p.y ≤ n.rectangle.max.y := by
  simp only [contains, rectangle, Bool.and_eq_true, decide_eq_true_eq, and_assoc]

theorem Node.isFinite_of_hasValidGeometry {n : Node Exact R} (h : n.hasValidGeometry = true) :
    n.isFinite = true := by
  simp only [hasValidGeometry, Bool.and_eq_true] at h
  obtain ⟨⟨horigin, hwidth⟩, hheight⟩ := h
  simp only [isFinite, Bool.and_eq_true]
  exact ⟨⟨horigin, Exact.isFinite_of_isPositive hwidth⟩, Exact.isFinite_of_isPositive hheight⟩

/-- A node has its right side to the right of its left one and its lower side below the upper one. -/
theorem Node.rectangle_of_hasValidGeometry {n : Node Exact R} (h : n.hasValidGeometry = true) :
    ∃ left top right bottom : ℚ, n.rectangle = ⟨⟨left, top⟩, ⟨right, bottom⟩⟩ ∧ left < right ∧
      top < bottom := by
  obtain ⟨id, layer, origin, width, height⟩ := n
  simp only [hasValidGeometry, Bool.and_eq_true] at h
  obtain ⟨⟨horigin, hwidth⟩, hheight⟩ := h
  obtain ⟨x, y, rfl⟩ := Point.isFinite_iff.mp horigin
  obtain ⟨w, rfl, hw⟩ := Exact.isPositive_iff.mp hwidth
  obtain ⟨h, rfl, hh⟩ := Exact.isPositive_iff.mp hheight
  exact ⟨x, y, x + w, y + h, rfl, lt_add_of_pos_right x hw, lt_add_of_pos_right y hh⟩

/-- The least rectangle around nodes with a size has a size. -/
theorem Bounds.IsHull.exists_rational {hull : Bounds Exact} {nodes : List (Node Exact R)}
    (h : hull.IsHull nodes) (hfinite : hull.isFinite = true) (hne : nodes ≠ [])
    (hnodes : ∀ n ∈ nodes, n.hasValidGeometry = true) :
    ∃ left top right bottom : ℚ, hull = ⟨⟨left, top⟩, ⟨right, bottom⟩⟩ ∧ left < right ∧
      top < bottom := by
  obtain ⟨left, top, right, bottom, rfl⟩ := isFinite_iff.mp hfinite
  obtain ⟨n, hn⟩ := List.exists_mem_of_ne_nil nodes hne
  obtain ⟨left', top', right', bottom', hrectangle, hleft, htop⟩ :=
    Node.rectangle_of_hasValidGeometry (hnodes n hn)
  have hwithin := h.holds n hn
  simp only [hrectangle, within_iff, Exact.rational_le] at hwithin
  obtain ⟨hl, ht, hr, hb⟩ := hwithin
  exact ⟨left, top, right, bottom, rfl, hl.trans_lt (hleft.trans_le hr),
    ht.trans_lt (htop.trans_le hb)⟩

/-- A point of one of the nodes is by rational numbers and lies in the rectangle around them. -/
theorem Bounds.IsHull.exists_point {left top right bottom : ℚ} {nodes : List (Node Exact R)}
    (h : IsHull (⟨⟨left, top⟩, ⟨right, bottom⟩⟩ : Bounds Exact) nodes)
    (hnodes : ∀ n ∈ nodes, n.hasValidGeometry = true) {n : Node Exact R} (hn : n ∈ nodes)
    {p : Point Exact} (hp : n.contains p = true) :
    ∃ x y : ℚ, p = ⟨x, y⟩ ∧ (left ≤ x ∧ x ≤ right) ∧ top ≤ y ∧ y ≤ bottom := by
  obtain ⟨px, py⟩ := p
  obtain ⟨left', top', right', bottom', hrectangle, -, -⟩ :=
    Node.rectangle_of_hasValidGeometry (hnodes n hn)
  have hwithin := h.holds n hn
  rw [Node.contains_iff, hrectangle] at hp
  simp only [hrectangle, within_iff, Exact.rational_le] at hwithin
  obtain ⟨hl, ht, hr, hb⟩ := hwithin
  obtain ⟨⟨hpl, hpr⟩, hpt, hpb⟩ := hp
  obtain ⟨x, rfl⟩ := Exact.exists_rational_of_between hpl hpr
  obtain ⟨y, rfl⟩ := Exact.exists_rational_of_between hpt hpb
  simp only [Exact.rational_le] at hpl hpr hpt hpb
  exact ⟨x, y, rfl, ⟨hl.trans hpl, hpr.trans hr⟩, ht.trans hpt, hpb.trans hb⟩

/-! ### A rectangle in the middle of a view -/

/-- What is centred on a side and not longer than it is on the side. -/
theorem on_side_of_centred {low high x side scale : ℚ} (hlow : low ≤ x) (hhigh : x ≤ high)
    (hscale : 0 ≤ scale) (hlength : (high - low) * scale ≤ side) :
    0 ≤ x * scale + (side / 2 - (low + high) / 2 * scale) ∧
      x * scale + (side / 2 - (low + high) / 2 * scale) ≤ side := by
  have hbelow : low * scale ≤ x * scale := mul_le_mul_of_nonneg_right hlow hscale
  have habove : x * scale ≤ high * scale := mul_le_mul_of_nonneg_right hhigh hscale
  constructor <;> linarith

namespace Transform

variable {left top right bottom width height scale : ℚ}

/-- The transform at a scale that brings the middle of a rectangle to the middle of a view. -/
def centring (left top right bottom width height scale : ℚ) : Transform Exact where
  offset :=
    ⟨(width / 2 - (left + right) / 2 * scale : ℚ), (height / 2 - (top + bottom) / 2 * scale : ℚ)⟩
  scale := scale

theorem toScreen_centring_center :
    (centring left top right bottom width height scale).toScreen
        (⟨⟨left, top⟩, ⟨right, bottom⟩⟩ : Bounds Exact).center =
      ⟨(width : Exact) / 2, (height : Exact) / 2⟩ := by
  simp only [centring, Bounds.center, toScreen, Exact.rational_add, Exact.two_eq,
    Exact.rational_div _ _ two_ne_zero, Exact.rational_mul, add_sub_cancel]

/-- At a scale at which no side of the rectangle is too long, its points come into the view. -/
theorem toScreen_centring_mem (hscale : 0 ≤ scale) (hacross : (right - left) * scale ≤ width)
    (hdown : (bottom - top) * scale ≤ height) {x y : ℚ} (hx : left ≤ x ∧ x ≤ right)
    (hy : top ≤ y ∧ y ≤ bottom) :
    let p : Point Exact := (centring left top right bottom width height scale).toScreen ⟨x, y⟩
    (0 ≤ p.x ∧ p.x ≤ width) ∧ 0 ≤ p.y ∧ p.y ≤ height := by
  simp only [centring, toScreen, Exact.rational_mul, Exact.rational_add, Exact.zero_eq,
    Exact.rational_le]
  exact ⟨on_side_of_centred hx.1 hx.2 hscale hacross,
    on_side_of_centred hy.1 hy.2 hscale hdown⟩

end Transform

namespace Viewport

/-! ### The scale -/

/-- The scale of a view of some size that is fitted to bounds of some size. -/
def fittedScale (low high margin width height boundsWidth boundsHeight : ℚ) : ℚ :=
  min (max (min (width / boundsWidth) (height / boundsHeight) * margin) low) high

theorem fittedScale_pos {low high margin width height boundsWidth boundsHeight : ℚ}
    (hlow : 0 < low) (hhigh : 0 < high) :
    0 < fittedScale low high margin width height boundsWidth boundsHeight :=
  lt_min (lt_max_of_lt_right hlow) hhigh

/-- At the fitted scale neither side of the bounds is longer than that of the view, unless the lower
limit of the scale asked for more. -/
theorem mul_fittedScale_le {low margin width height boundsWidth boundsHeight : ℚ}
    (hwidth : 0 < width) (hheight : 0 < height) (hboundsWidth : 0 < boundsWidth)
    (hboundsHeight : 0 < boundsHeight) (hmargin : margin ≤ 1)
    (hlow : low ≤ min (width / boundsWidth) (height / boundsHeight) * margin) (high : ℚ) :
    boundsWidth * fittedScale low high margin width height boundsWidth boundsHeight ≤ width ∧
      boundsHeight * fittedScale low high margin width height boundsWidth boundsHeight ≤
        height := by
  have hnonneg : 0 ≤ min (width / boundsWidth) (height / boundsHeight) :=
    le_min (div_pos hwidth hboundsWidth).le (div_pos hheight hboundsHeight).le
  -- The upper limit and the margin only make it smaller.
  have hscale : fittedScale low high margin width height boundsWidth boundsHeight ≤
      min (width / boundsWidth) (height / boundsHeight) := by
    unfold fittedScale
    rw [max_eq_left hlow]
    exact (min_le_left _ _).trans (mul_le_of_le_one_right hnonneg hmargin)
  constructor
  · rw [mul_comm, ← le_div_iff₀ hboundsWidth]
    exact hscale.trans (min_le_left _ _)
  · rw [mul_comm, ← le_div_iff₀ hboundsHeight]
    exact hscale.trans (min_le_right _ _)

variable {v : Viewport Exact} {nodes : List (Node Exact R)}

theorem clampScale_rational {low high : ℚ} (hmin : v.config.minScale = low)
    (hmax : v.config.maxScale = high) (scale : ℚ) :
    v.clampScale (scale : Exact) = (min (max scale low) high : ℚ) := by
  rw [clampScale, hmin, hmax, Exact.larger_rational, Exact.smaller_rational]

/-- A view that is fitted to bounds with a size is centred on them at the fitted scale. -/
theorem fit?_eq {low high margin left top right bottom : ℚ} (hunlocked : v.locked = false)
    (hmin : v.config.minScale = low) (hmax : v.config.maxScale = high)
    (hmargin : v.config.fitMargin = margin)
    (hbounds : v.boundsOf? nodes = some ⟨⟨left, top⟩, ⟨right, bottom⟩⟩) (hleft : left < right)
    (htop : top < bottom) (width height : ℚ) :
    v.fit? nodes (width : Exact) height =
      some { v with
        transform := .centring left top right bottom width height
          (fittedScale low high margin width height (right - left) (bottom - top)) } := by
  have hlocked : ¬ v.locked = true := by
    rw [hunlocked]
    exact Bool.false_ne_true
  have hacross : right - left ≠ 0 := (sub_pos.mpr hleft).ne'
  have hdown : bottom - top ≠ 0 := (sub_pos.mpr htop).ne'
  rw [fit?, if_neg hlocked, hbounds, Option.map_some]
  simp only [Bounds.width, Bounds.height, Bounds.center, hmargin, Exact.rational_sub,
    Exact.rational_add, Exact.rational_div _ _ hacross, Exact.rational_div _ _ hdown,
    Exact.smaller_rational, Exact.rational_mul, clampScale_rational hmin hmax, Exact.two_eq,
    Exact.rational_div _ _ two_ne_zero]
  rfl

/-! ### Fitting -/

/-- In exact numbers, with limits that pass their check and a margin that leaves room, an unlocked
view can be fitted to any nodes with a size. Their bounds are the least rectangle that holds them,
grown by the padding, and the middle of the bounds comes to the middle of the view. If the scale
that the margin allows is not below the lower limit, every point of every node comes into the view.
Neither the order of the nodes nor what was shown before makes a difference. -/
theorem fit_frames_nodes
    (hconfig : (v.config.validate : Except (ConfigError Exact Exact) Unit) = .ok ())
    (hmargin : v.config.fitMargin ≤ 1) (hunlocked : v.locked = false) (hne : nodes ≠ [])
    (hnodes : ∀ n ∈ nodes, n.hasValidGeometry = true) {width height : Exact}
    (hwidth : Scalar.isPositive width = true) (hheight : Scalar.isPositive height = true) :
    ∃ (hull bounds : Bounds Exact) (v' : Viewport Exact),
      hull.IsHull nodes ∧
      bounds =
        ⟨⟨hull.min.x - v.config.fitPadding, hull.min.y - v.config.fitPadding⟩,
          ⟨hull.max.x + v.config.fitPadding, hull.max.y + v.config.fitPadding⟩⟩ ∧
      v.boundsOf? nodes = some bounds ∧ v.fit? nodes width height = some v' ∧
      (∀ nodes' : List (Node Exact R), nodes'.Perm nodes →
        v.boundsOf? nodes' = some bounds ∧ v.fit? nodes' width height = some v') ∧
      (∀ before : Transform Exact,
        { v with transform := before }.fit? nodes width height = some v') ∧
      v'.transform.toScreen bounds.center = ⟨width / 2, height / 2⟩ ∧
      (v.config.minScale ≤
          Scalar.smaller (width / bounds.width) (height / bounds.height) * v.config.fitMargin →
        ∀ n ∈ nodes, ∀ p : Point Exact, n.contains p = true →
          (0 ≤ (v'.transform.toScreen p).x ∧ (v'.transform.toScreen p).x ≤ width) ∧
            0 ≤ (v'.transform.toScreen p).y ∧ (v'.transform.toScreen p).y ≤ height) := by
  -- From here on all numbers are rational, and no division is by zero.
  obtain ⟨low, high, margin, padding, hlow, hhigh, hm, hpad, hlow', hhigh', hpad'⟩ :=
    ViewConfig.exists_rational hconfig
  obtain ⟨width, rfl, hwidth'⟩ := Exact.isPositive_iff.mp hwidth
  obtain ⟨height, rfl, hheight'⟩ := Exact.isPositive_iff.mp hheight
  have hrectangles : ∀ n ∈ nodes, n.rectangle.isFinite = true := fun n hn ↦
    Node.isFinite_rectangle (Node.isFinite_of_hasValidGeometry (hnodes n hn))
  obtain ⟨hull, hfinite, hhull, hgrown⟩ := Bounds.exists_hull hne hrectangles
  obtain ⟨left, top, right, bottom, rfl, hleft, htop⟩ := hhull.exists_rational hfinite hne hnodes
  have hbounds : v.boundsOf? nodes =
      some ⟨⟨(left - padding : ℚ), (top - padding : ℚ)⟩,
        ⟨(right + padding : ℚ), (bottom + padding : ℚ)⟩⟩ := by
    rw [boundsOf?, hgrown, Bounds.grow, hpad]
    simp only [Exact.rational_sub, Exact.rational_add]
  have hleft' : left - padding < right + padding := by linarith
  have htop' : top - padding < bottom + padding := by linarith
  have hfit := fit?_eq hunlocked hlow hhigh hm hbounds hleft' htop' width height
  refine ⟨_, _, _, hhull, ?_, hbounds, hfit, ?_, ?_, Transform.toScreen_centring_center, ?_⟩
  · simp only [hpad, Exact.rational_sub, Exact.rational_add]
  · intro nodes' hperm
    have hsame : v.boundsOf? nodes' = v.boundsOf? nodes := Bounds.ofNodes?_perm hperm hrectangles _
    refine ⟨hsame.trans hbounds, ?_⟩
    rw [← hfit, fit?, fit?, hsame]
  · intro before
    rw [← hfit]
    rfl
  · intro hfits n hn p hp
    rw [hm, Exact.one_eq, Exact.rational_le] at hmargin
    simp only [Bounds.width, Bounds.height, hlow, hm, Exact.rational_sub,
      Exact.rational_div _ _ (sub_pos.mpr hleft').ne',
      Exact.rational_div _ _ (sub_pos.mpr htop').ne', Exact.smaller_rational, Exact.rational_mul,
      Exact.rational_le] at hfits
    obtain ⟨hacross, hdown⟩ := mul_fittedScale_le hwidth' hheight' (sub_pos.mpr hleft')
      (sub_pos.mpr htop') hmargin hfits high
    obtain ⟨x, y, rfl, hx, hy⟩ := hhull.exists_point hnodes hn hp
    refine Transform.toScreen_centring_mem (fittedScale_pos hlow' hhigh').le hacross hdown ?_ ?_
    · constructor <;> linarith
    · constructor <;> linarith

/-- Two nodes and a view so large that the scale is cut down to the upper limit. -/
theorem fit_frames_nodes_cut :
    ∃ (v v' : Viewport Exact) (nodes : List (Node Exact Exact)),
      (v.config.validate : Except (ConfigError Exact Exact) Unit) = .ok () ∧
        v.config.fitMargin ≤ 1 ∧ v.locked = false ∧
          (∀ n ∈ nodes, n.hasValidGeometry = true) ∧ v.fit? nodes 8000 6000 = some v' ∧
            v'.transform.scale = 3 ∧ v'.transform.toScreen ⟨200, 100⟩ = ⟨4000, 3000⟩ ∧
              ∀ n ∈ nodes, ∀ p : Point Exact, n.contains p = true →
                (0 ≤ (v'.transform.toScreen p).x ∧ (v'.transform.toScreen p).x ≤ 8000) ∧
                  0 ≤ (v'.transform.toScreen p).y ∧ (v'.transform.toScreen p).y ≤ 6000 := by
  let layer : Layer Exact := ⟨"", "", "", "", .ofList [], "", ""⟩
  let nodes : List (Node Exact Exact) :=
    [⟨⟨"a"⟩, layer, ⟨0, 0⟩, 100, 100⟩, ⟨⟨"b"⟩, layer, ⟨300, 100⟩, 100, 100⟩]
  let v : Viewport Exact := new .standard
  have hconfig : (v.config.validate : Except (ConfigError Exact Exact) Unit) = .ok () := by
    decide +kernel
  have hmargin : v.config.fitMargin ≤ 1 := by decide +kernel
  have hnodes : ∀ n ∈ nodes, n.hasValidGeometry = true := by decide +kernel
  obtain ⟨hull, bounds, v', -, -, hbounds, hfit, -, -, hcenter, hframed⟩ :=
    fit_frames_nodes hconfig hmargin rfl (List.cons_ne_nil _ _) hnodes
      (show Scalar.isPositive (8000 : Exact) = true by decide +kernel)
      (show Scalar.isPositive (6000 : Exact) = true by decide +kernel)
  have hplace : v.boundsOf? nodes = some ⟨⟨-100, -100⟩, ⟨500, 300⟩⟩ := by decide +kernel
  obtain rfl : bounds = ⟨⟨-100, -100⟩, ⟨500, 300⟩⟩ :=
    Option.some.inj (hbounds.symm.trans hplace)
  have hscale : (v.fit? nodes 8000 6000).map (fun v' ↦ v'.transform.scale) = some 3 := by
    decide +kernel
  rw [hfit, Option.map_some, Option.some.injEq] at hscale
  have hmiddle : (⟨⟨-100, -100⟩, ⟨500, 300⟩⟩ : Bounds Exact).center = ⟨200, 100⟩ := by
    decide +kernel
  have hhalf : (⟨8000 / 2, 6000 / 2⟩ : Point Exact) = ⟨4000, 3000⟩ := by decide +kernel
  rw [hmiddle, hhalf] at hcenter
  exact ⟨v, v', nodes, hconfig, hmargin, rfl, hnodes, hfit, hscale, hcenter,
    hframed (by decide +kernel)⟩

end Viewport

end LayerCanvas
