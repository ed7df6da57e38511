import LayerCanvas.Proofs.Exact
import LayerCanvas.Viewport.Bounds
import Mathlib.Tactic.MkIffOfInductiveProp
import Mathlib.Tactic.Tauto

/-!
The bounds of nodes, in exact numbers. They are gathered node by node, and from each side the one is
kept that is further out. So a rectangle holds what has been gathered exactly if it holds every node
that has been seen, whatever the order was: the bounds are the least rectangle that holds them all.
-/

set_option autoImplicit false
set_option relaxedAutoImplicit false

namespace LayerCanvas

section

variable {C R : Type} [Scalar C]

/-- The rectangle of a node. -/
def Node.rectangle (n : Node C R) : Bounds C where
  min := n.origin
  max := ⟨n.origin.x + n.width, n.origin.y + n.height⟩

namespace Bounds

/-- All sides are finite. -/
def isFinite (b : Bounds C) : Bool := b.min.isFinite && b.max.isFinite

/-- One rectangle lies in another: none of its sides is further out. -/
@[mk_iff] structure Within (b b' : Bounds C) : Prop where
  left : b'.min.x ≤ b.min.x
  top : b'.min.y ≤ b.min.y
  right : b.max.x ≤ b'.max.x
  bottom : b.max.y ≤ b'.max.y

/-- The least rectangle that holds all of some nodes. -/
structure IsHull (b : Bounds C) (nodes : List (Node C R)) : Prop where
  holds : ∀ n ∈ nodes, n.rectangle.Within b
  least : ∀ b' : Bounds C, (∀ n ∈ nodes, n.rectangle.Within b') → b.Within b'

end Bounds

end

variable {R : Type}

theorem Point.isFinite_iff_coordinates {C : Type} [Scalar C] {p : Point C} :
    p.isFinite = true ↔ Scalar.isFinite p.x = true ∧ Scalar.isFinite p.y = true :=
  Bool.and_eq_true_iff

theorem Point.isFinite_iff {p : Point Exact} :
    p.isFinite = true ↔ ∃ x y : ℚ, p = ⟨x, y⟩ := by
  obtain ⟨x, y⟩ := p
  simp only [isFinite_iff_coordinates, Exact.isFinite_iff, Point.mk.injEq]
  constructor
  · rintro ⟨⟨p, hp⟩, q, hq⟩
    exact ⟨p, q, hp, hq⟩
  · rintro ⟨p, q, hp, hq⟩
    exact ⟨⟨p, hp⟩, q, hq⟩

namespace Bounds

variable {b b' : Bounds Exact} {n : Node Exact R} {nodes nodes' : List (Node Exact R)}

theorem isFinite_iff :
    b.isFinite = true ↔ ∃ left top right bottom : ℚ, b = ⟨⟨left, top⟩, ⟨right, bottom⟩⟩ := by
  obtain ⟨min, max⟩ := b
  simp only [isFinite, Bool.and_eq_true, Point.isFinite_iff, Bounds.mk.injEq]
  constructor
  · rintro ⟨⟨left, top, hmin⟩, right, bottom, hmax⟩
    exact ⟨left, top, right, bottom, hmin, hmax⟩
  · rintro ⟨left, top, right, bottom, hmin, hmax⟩
    exact ⟨⟨left, top, hmin⟩, right, bottom, hmax⟩

theorem within_self (h : b.isFinite = true) : b.Within b := by
  obtain ⟨left, top, right, bottom, rfl⟩ := isFinite_iff.mp h
  simp [within_iff]

theorem eq_of_within (h : b.isFinite = true) (h' : b'.isFinite = true) (hb : b.Within b')
    (hb' : b'.Within b) : b = b' := by
  obtain ⟨left, top, right, bottom, rfl⟩ := isFinite_iff.mp h
  obtain ⟨left', top', right', bottom', rfl⟩ := isFinite_iff.mp h'
  simp only [within_iff, Exact.rational_le] at hb hb'
  simp only [Bounds.mk.injEq, Point.mk.injEq, Exact.rational_inj]
  exact ⟨⟨le_antisymm hb'.1 hb.1, le_antisymm hb'.2.1 hb.2.1⟩,
    le_antisymm hb.2.2.1 hb'.2.2.1, le_antisymm hb.2.2.2 hb'.2.2.2⟩

/-! ### One node more -/

/-- The bounds of nothing do not show in those of a node. -/
theorem cover_nothing (hn : n.rectangle.isFinite = true) : nothing.cover n = n.rectangle := by
  have hnode : nothing.cover n =
      ⟨⟨Scalar.smaller Scalar.infinity n.rectangle.min.x,
          Scalar.smaller Scalar.infinity n.rectangle.min.y⟩,
        ⟨Scalar.larger (-Scalar.infinity) n.rectangle.max.x,
          Scalar.larger (-Scalar.infinity) n.rectangle.max.y⟩⟩ := rfl
  rw [hnode]
  obtain ⟨left, top, right, bottom, hrectangle⟩ := isFinite_iff.mp hn
  rw [hrectangle]
  simp only [Exact.smaller_infinity, Exact.larger_neg_infinity]

/-- Of each side the one further out is kept. -/
theorem cover_eq (n : Node Exact R) {left top right bottom left' top' right' bottom' : ℚ}
    (hn : n.rectangle = ⟨⟨left', top'⟩, ⟨right', bottom'⟩⟩) :
    (⟨⟨left, top⟩, ⟨right, bottom⟩⟩ : Bounds Exact).cover n =
      ⟨⟨(Min.min left left' : ℚ), (Min.min top top' : ℚ)⟩,
        ⟨(Max.max right right' : ℚ), (Max.max bottom bottom' : ℚ)⟩⟩ := by
  have hnode (b : Bounds Exact) : b.cover n =
      ⟨⟨Scalar.smaller b.min.x n.rectangle.min.x, Scalar.smaller b.min.y n.rectangle.min.y⟩,
        ⟨Scalar.larger b.max.x n.rectangle.max.x, Scalar.larger b.max.y n.rectangle.max.y⟩⟩ := rfl
  rw [hnode, hn]
  simp only [Exact.smaller_rational, Exact.larger_rational]

theorem isFinite_cover (hb : b.isFinite = true) (hn : n.rectangle.isFinite = true) :
    (b.cover n).isFinite = true := by
  obtain ⟨left, top, right, bottom, rfl⟩ := isFinite_iff.mp hb
  obtain ⟨left', top', right', bottom', hrectangle⟩ := isFinite_iff.mp hn
  rw [cover_eq n hrectangle]
  exact isFinite_iff.mpr ⟨_, _, _, _, rfl⟩

theorem cover_within_iff (hb : b.isFinite = true) (hn : n.rectangle.isFinite = true) :
    (b.cover n).Within b' ↔ b.Within b' ∧ n.rectangle.Within b' := by
  obtain ⟨left, top, right, bottom, rfl⟩ := isFinite_iff.mp hb
  obtain ⟨left', top', right', bottom', hrectangle⟩ := isFinite_iff.mp hn
  rw [cover_eq n hrectangle, hrectangle]
  simp only [within_iff, Exact.le_min_iff, Exact.max_le_iff]
  tauto

/-! ### All nodes -/

/-- What has been gathered lies in a rectangle exactly if what there was before and every node that
came after lie in it. -/
theorem foldl_cover (hb : b.isFinite = true) (hnodes : ∀ n ∈ nodes, n.rectangle.isFinite = true) :
    (nodes.foldl cover b).isFinite = true ∧ ∀ b' : Bounds Exact,
      (nodes.foldl cover b).Within b' ↔ b.Within b' ∧ ∀ n ∈ nodes, n.rectangle.Within b' := by
  induction nodes generalizing b with
  | nil => exact ⟨hb, fun b' ↦ by simp⟩
  | cons n rest ih =>
    obtain ⟨hn, hrest⟩ := List.forall_mem_cons.mp hnodes
    obtain ⟨hfinite, hwithin⟩ := ih (isFinite_cover hb hn) hrest
    refine ⟨hfinite, fun b' ↦ ?_⟩
    rw [List.foldl_cons, hwithin, cover_within_iff hb hn, List.forall_mem_cons, and_assoc]

/-- The bounds of some nodes are the least rectangle that holds them, grown by the padding. -/
theorem exists_hull (hne : nodes ≠ []) (hnodes : ∀ n ∈ nodes, n.rectangle.isFinite = true) :
    ∃ hull : Bounds Exact, hull.isFinite = true ∧ hull.IsHull nodes ∧
      ∀ padding, ofNodes? padding nodes = some (hull.grow padding) := by
  cases nodes with
  | nil => exact absurd rfl hne
  | cons n rest =>
    obtain ⟨hn, hrest⟩ := List.forall_mem_cons.mp hnodes
    obtain ⟨hfinite, hwithin⟩ := foldl_cover hn hrest
    have hgathered : ∀ b' : Bounds Exact,
        (rest.foldl cover n.rectangle).Within b' ↔ ∀ m ∈ n :: rest, m.rectangle.Within b' := by
      intro b'
      rw [hwithin, List.forall_mem_cons]
    refine ⟨rest.foldl cover n.rectangle, hfinite, ⟨?_, ?_⟩, fun padding ↦ ?_⟩
    · exact (hgathered _).mp (within_self hfinite)
    · intro b' hholds
      exact (hgathered b').mpr hholds
    · rw [ofNodes?, List.isEmpty_cons, List.foldl_cons, cover_nothing hn]
      rfl

theorem IsHull.congr (h : b.IsHull nodes) (hmem : ∀ n, n ∈ nodes' ↔ n ∈ nodes) :
    b.IsHull nodes' where
  holds n hn := h.holds n ((hmem n).mp hn)
  least b' hholds := h.least b' fun n hn ↦ hholds n ((hmem n).mpr hn)

/-- There is one least rectangle. -/
theorem IsHull.unique (h : b.IsHull nodes) (h' : b'.IsHull nodes) (hb : b.isFinite = true)
    (hb' : b'.isFinite = true) : b = b' :=
  eq_of_within hb hb' (h.least b' h'.holds) (h'.least b h.holds)

/-- The bounds do not depend on the order of the nodes. -/
theorem ofNodes?_perm (hperm : nodes'.Perm nodes)
    (hnodes : ∀ n ∈ nodes, n.rectangle.isFinite = true) (padding : Exact) :
    ofNodes? padding nodes' = ofNodes? padding nodes := by
  by_cases hne : nodes = []
  · subst hne
    rw [hperm.eq_nil]
  have hne' : nodes' ≠ [] := by
    intro hempty
    subst hempty
    exact hne hperm.nil_eq.symm
  obtain ⟨hull, hfinite, hhull, hbounds⟩ := exists_hull hne hnodes
  obtain ⟨hull', hfinite', hhull', hbounds'⟩ := exists_hull hne' fun n hn ↦
    hnodes n (hperm.mem_iff.mp hn)
  have hsame : hull' = hull :=
    (hhull'.congr fun n ↦ hperm.mem_iff.symm).unique hhull hfinite' hfinite
  rw [hbounds, hbounds', hsame]

theorem isFinite_grow {padding : Exact} (hb : b.isFinite = true)
    (hpadding : Scalar.isFinite padding = true) : (b.grow padding).isFinite = true := by
  obtain ⟨left, top, right, bottom, rfl⟩ := isFinite_iff.mp hb
  obtain ⟨q, rfl⟩ := Exact.isFinite_iff.mp hpadding
  simp only [grow, Exact.rational_sub, Exact.rational_add]
  exact isFinite_iff.mpr ⟨_, _, _, _, rfl⟩

theorem isFinite_of_ofNodes? {padding : Exact} (hpadding : Scalar.isFinite padding = true)
    (hnodes : ∀ n ∈ nodes, n.rectangle.isFinite = true) (h : ofNodes? padding nodes = some b) :
    b.isFinite = true := by
  have hne : nodes ≠ [] := by
    rintro rfl
    cases h
  obtain ⟨hull, hfinite, -, hgrown⟩ := exists_hull hne hnodes
  rw [hgrown] at h
  cases h
  exact isFinite_grow hfinite hpadding

end Bounds

end LayerCanvas
