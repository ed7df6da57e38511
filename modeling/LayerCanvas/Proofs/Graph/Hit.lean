import LayerCanvas.Graph.Hit
import LayerCanvas.Proofs.Binary.Limits

/-!
What lies under a point, by what is there. The search for a hit goes through the nodes twice and
through the live connections once, each time from the last one painted to the first, and stops at
the first find. What it finds can be said without a search: among the elements of one sort that hold
the point it is the last one, and an element of one sort counts only if none of the sorts before it
holds the point.
-/

set_option autoImplicit false
set_option relaxedAutoImplicit false

namespace LayerCanvas

/-! ### The last element of its kind -/

section Last

variable {α β : Type} {P : α → Prop} {xs : List α} {x y : α}

/-- An element of a list is the last one with a property. -/
def IsLast (P : α → Prop) (xs : List α) (x : α) : Prop :=
  P x ∧ ∃ before after, xs = before ++ x :: after ∧ ∀ y ∈ after, ¬ P y

theorem IsLast.mem (h : IsLast P xs x) : x ∈ xs := by
  obtain ⟨-, before, after, rfl, -⟩ := h
  simp

/-- A search from the end finds the last element, and what is made of it. -/
theorem findSome?_reverse_eq_some_iff {f : α → Option β} {b : β} :
    xs.reverse.findSome? f = some b ↔
      ∃ x, IsLast (fun x ↦ ∃ b, f x = some b) xs x ∧ f x = some b := by
  have hnone (x : α) : (¬ ∃ b, f x = some b) ↔ f x = none := by
    rw [← Option.isSome_iff_exists, Option.not_isSome_iff_eq_none]
  rw [List.findSome?_eq_some_iff]
  constructor
  · rintro ⟨after, x, before, hxs, hx, hafter⟩
    refine ⟨x, ⟨⟨b, hx⟩, before.reverse, after.reverse, ?_, fun y hy ↦ ?_⟩, hx⟩
    · rw [← xs.reverse_reverse, hxs]
      simp
    · exact (hnone y).mpr (hafter y (List.mem_reverse.mp hy))
  · rintro ⟨x, ⟨-, before, after, rfl, hafter⟩, hx⟩
    refine ⟨after.reverse, x, before.reverse, by simp, hx, fun y hy ↦ ?_⟩
    exact (hnone y).mp (hafter y (List.mem_reverse.mp hy))

theorem find?_reverse_eq_some_iff {p : α → Bool} :
    xs.reverse.find? p = some x ↔ IsLast (fun x ↦ p x = true) xs x := by
  rw [List.find?_eq_some_iff_append]
  constructor
  · rintro ⟨hx, after, before, hxs, hafter⟩
    refine ⟨hx, before.reverse, after.reverse, ?_, fun y hy ↦ ?_⟩
    · rw [← xs.reverse_reverse, hxs]
      simp
    · simpa using hafter y (List.mem_reverse.mp hy)
  · rintro ⟨hx, before, after, rfl, hafter⟩
    refine ⟨hx, after.reverse, before.reverse, by simp, fun y hy ↦ ?_⟩
    simpa using hafter y (List.mem_reverse.mp hy)

theorem IsLast.unique (hx : IsLast P xs x) (hy : IsLast P xs y) : x = y := by
  classical
  have hfind {z : α} (hz : IsLast P xs z) : xs.reverse.find? (fun z ↦ decide (P z)) = some z :=
    find?_reverse_eq_some_iff.mpr (by simpa only [decide_eq_true_eq] using hz)
  exact Option.some.inj ((hfind hx).symm.trans (hfind hy))

/-- There is a last element with a property if there is one at all. -/
theorem exists_isLast_iff : (∃ x, IsLast P xs x) ↔ ∃ x ∈ xs, P x := by
  classical
  constructor
  · rintro ⟨x, hx⟩
    exact ⟨x, hx.mem, hx.1⟩
  · rintro ⟨x, hx, hP⟩
    have hfound : (xs.reverse.find? fun z ↦ decide (P z)).isSome = true := by
      rw [List.find?_isSome]
      exact ⟨x, List.mem_reverse.mpr hx, decide_eq_true hP⟩
    obtain ⟨y, hy⟩ := Option.isSome_iff_exists.mp hfound
    have hlast := find?_reverse_eq_some_iff.mp hy
    exact ⟨y, by simpa only [decide_eq_true_eq] using hlast⟩

end Last

/-! ### What holds a point -/

/-- A dot lies within a radius of a point. -/
def Dot.IsNear (radius : Float32) (p : Point) (d : Dot) : Prop :=
  d.position.squaredDistance p ≤ radius * radius

instance (radius : Float32) (p : Point) (d : Dot) : Decidable (d.IsNear radius p) :=
  inferInstanceAs (Decidable (_ ≤ _))

/-- A dot of a node lies within a radius of a point. -/
def Node.HasDotAt (radius : Float32) (p : Point) (n : Node) : Prop :=
  ∃ kind, (n.dot kind).IsNear radius p

instance (radius : Float32) (p : Point) (n : Node) : Decidable (n.HasDotAt radius p) :=
  decidable_of_iff ((n.dot .output).IsNear radius p ∨ (n.dot .input).IsNear radius p)
    ⟨fun h ↦ h.elim (⟨_, ·⟩) (⟨_, ·⟩), fun ⟨kind, h⟩ ↦ match kind with
      | .output => Or.inl h
      | .input => Or.inr h⟩

/-- The radius of the delete target of a connection as a press meets it. -/
def EditorConfig.pressRadius (config : EditorConfig) (hovered : Option ConnectionId)
    (id : ConnectionId) : Float32 :=
  if hovered = some id then config.deleteRadius + Curve.targetGrowth else config.deleteRadius

/-- The circle of a radius around the middle of the curve of a connection. -/
def Connection.targetCircle (c : Connection) (radius : Float32) : Circle :=
  ⟨(Curve.ofConnection c).midpoint, Precision.widen radius⟩

/-- A live connection that is drawn more than half way has its delete target at a point. -/
def Connection.HasTargetAt (radius : Float32) (p : Point) (c : Connection) : Prop :=
  c.isLive = true ∧ 0.5 < c.progress ∧ (c.targetCircle radius).contains p.widen = true

instance (radius : Float32) (p : Point) (c : Connection) : Decidable (c.HasTargetAt radius p) :=
  inferInstanceAs (Decidable (_ ∧ _ ∧ _))

namespace Connection

/-- A connection that is drawn more than half way has a delete target. -/
theorem deleteTarget?_eq (c : Connection) (radius : Float32) :
    (Curve.ofConnection c).deleteTarget? radius =
      if 0.5 < c.progress then some (c.targetCircle radius) else none := by
  have hshown : (Curve.ofConnection c).showsDeleteTarget = decide (0.5 < c.progress) :=
    decide_eq_decide.mpr (Binary.half_lt_clamp_single_iff c.progress)
  rw [Curve.deleteTarget?, hshown]
  simp only [decide_eq_true_eq]
  rfl

theorem hasTargetAt_iff {c : Connection} {radius : Float32} {p : Point} :
    c.HasTargetAt radius p ↔
      c.isLive = true ∧
        ((Curve.ofConnection c).deleteTarget? radius).any (·.contains p.widen) = true := by
  rw [deleteTarget?_eq]
  by_cases hprogress : 0.5 < c.progress <;> simp [HasTargetAt, hprogress]

end Connection

namespace Graph

variable {g : Graph} {config : EditorConfig} {hovered : Option ConnectionId} {p : Point}

/-! ### The three searches -/

/-- The dot of a node that counts at a point. -/
def nearDot? (radius : Float32) (p : Point) (n : Node) : Option Dot :=
  [n.dot .output, n.dot .input].find? fun d ↦ d.position.squaredDistance p ≤ radius * radius

theorem dotAt?_eq (radius : Float32) :
    g.dotAt? radius p = g.nodes.reverse.findSome? (nearDot? radius p) := rfl

/-- Of the two dots of a node the output comes first. -/
theorem nearDot?_eq_some_iff {radius : Float32} {n : Node} {d : Dot} :
    nearDot? radius p n = some d ↔
      d.IsNear radius p ∧
        (d = n.dot .output ∨ d = n.dot .input ∧ ¬ (n.dot .output).IsNear radius p) := by
  simp only [nearDot?, Dot.IsNear, List.find?_cons, List.find?_nil]
  by_cases houtput : (n.dot .output).position.squaredDistance p ≤ radius * radius <;>
    by_cases hinput : (n.dot .input).position.squaredDistance p ≤ radius * radius <;>
      simp only [houtput, hinput, decide_true, decide_false, Option.some.injEq, reduceCtorEq] <;>
      grind

theorem exists_nearDot?_iff {radius : Float32} {n : Node} :
    (∃ d, nearDot? radius p n = some d) ↔ n.HasDotAt radius p := by
  constructor
  · rintro ⟨d, hd⟩
    obtain ⟨hnear, rfl | ⟨rfl, -⟩⟩ := nearDot?_eq_some_iff.mp hd
    · exact ⟨.output, hnear⟩
    · exact ⟨.input, hnear⟩
  · rintro ⟨kind, hnear⟩
    by_cases houtput : (n.dot .output).IsNear radius p
    · exact ⟨_, nearDot?_eq_some_iff.mpr ⟨houtput, Or.inl rfl⟩⟩
    · cases kind with
      | output => exact absurd hnear houtput
      | input => exact ⟨_, nearDot?_eq_some_iff.mpr ⟨hnear, Or.inr ⟨rfl, houtput⟩⟩⟩

theorem dotAt?_eq_some_iff {radius : Float32} {d : Dot} :
    g.dotAt? radius p = some d ↔
      ∃ n, IsLast (Node.HasDotAt radius p) g.nodes n ∧ d.IsNear radius p ∧
        (d = n.dot .output ∨ d = n.dot .input ∧ ¬ (n.dot .output).IsNear radius p) := by
  have hnear : (fun n ↦ ∃ d, nearDot? radius p n = some d) = Node.HasDotAt radius p :=
    funext fun _ ↦ propext exists_nearDot?_iff
  rw [dotAt?_eq, findSome?_reverse_eq_some_iff, hnear]
  simp only [nearDot?_eq_some_iff]

theorem dotAt?_eq_none_iff {radius : Float32} :
    g.dotAt? radius p = none ↔ ¬ ∃ n ∈ g.nodes, n.HasDotAt radius p := by
  rw [dotAt?_eq, List.findSome?_eq_none_iff]
  simp only [List.mem_reverse, ← exists_nearDot?_iff, Option.eq_none_iff_forall_ne_some, ne_eq,
    not_exists, not_and]

theorem nodeAt?_eq_some_iff {n : Node} :
    g.nodeAt? p = some n ↔ IsLast (fun n ↦ n.contains p = true) g.nodes n :=
  find?_reverse_eq_some_iff

theorem nodeAt?_eq_none_iff : g.nodeAt? p = none ↔ ¬ ∃ n ∈ g.nodes, n.contains p = true := by
  simp [nodeAt?]

theorem deleteTargetAt?_eq_some_iff {id : ConnectionId} :
    g.deleteTargetAt? config.deleteRadius hovered p = some id ↔
      ∃ c, IsLast (fun c ↦ c.HasTargetAt (config.pressRadius hovered c.id) p) g.connections c ∧
        c.id = id := by
  unfold deleteTargetAt? liveConnections
  rw [← List.filter_reverse, List.find?_filter]
  simp only [Option.map_eq_some_iff, find?_reverse_eq_some_iff, decide_eq_true_eq,
    Connection.hasTargetAt_iff, EditorConfig.pressRadius]

theorem deleteTargetAt?_eq_none_iff :
    g.deleteTargetAt? config.deleteRadius hovered p = none ↔
      ¬ ∃ c ∈ g.connections, c.HasTargetAt (config.pressRadius hovered c.id) p := by
  rw [Option.eq_none_iff_forall_ne_some, ← exists_isLast_iff]
  simp only [ne_eq, deleteTargetAt?_eq_some_iff]
  grind

/-! ### The topmost element -/

/-- What is topmost at a point: a dot, else a node, else a delete target, else the canvas, and of
one sort the last one. -/
inductive Topmost (g : Graph) (config : EditorConfig) (hovered : Option ConnectionId) (p : Point) :
    Hit → Prop
  | output {n : Node} (hlast : IsLast (Node.HasDotAt config.pointRadius p) g.nodes n)
    (houtput : (n.dot .output).IsNear config.pointRadius p) :
    Topmost g config hovered p (.dot (n.dot .output))
  | input {n : Node} (hlast : IsLast (Node.HasDotAt config.pointRadius p) g.nodes n)
    (houtput : ¬ (n.dot .output).IsNear config.pointRadius p) :
    Topmost g config hovered p (.dot (n.dot .input))
  | node {n : Node} (hdots : ¬ ∃ n ∈ g.nodes, n.HasDotAt config.pointRadius p)
    (hlast : IsLast (fun n ↦ n.contains p = true) g.nodes n) :
    Topmost g config hovered p (.node n.id n.origin)
  | deleteTarget {c : Connection} (hdots : ¬ ∃ n ∈ g.nodes, n.HasDotAt config.pointRadius p)
    (hnodes : ¬ ∃ n ∈ g.nodes, n.contains p = true)
    (hlast : IsLast (fun c ↦ c.HasTargetAt (config.pressRadius hovered c.id) p) g.connections c) :
    Topmost g config hovered p (.deleteTarget c.id)
  | canvas (hdots : ¬ ∃ n ∈ g.nodes, n.HasDotAt config.pointRadius p)
    (hnodes : ¬ ∃ n ∈ g.nodes, n.contains p = true)
    (htargets : ¬ ∃ c ∈ g.connections, c.HasTargetAt (config.pressRadius hovered c.id) p) :
    Topmost g config hovered p .canvas

/-- A hit is what is topmost at the point. -/
theorem topmost_hit (g : Graph) (config : EditorConfig) (hovered : Option ConnectionId)
    (p : Point) : g.Topmost config hovered p (g.hit config hovered p) := by
  unfold hit
  cases hdot : g.dotAt? config.pointRadius p with
  | some d =>
    obtain ⟨n, hlast, hnear, rfl | ⟨rfl, hfar⟩⟩ := dotAt?_eq_some_iff.mp hdot
    · exact .output hlast hnear
    · exact .input hlast hfar
  | none =>
    have hdots := dotAt?_eq_none_iff.mp hdot
    cases hnode : g.nodeAt? p with
    | some n => exact .node hdots (nodeAt?_eq_some_iff.mp hnode)
    | none =>
      have hnodes := nodeAt?_eq_none_iff.mp hnode
      cases htarget : g.deleteTargetAt? config.deleteRadius hovered p with
      | some id =>
        obtain ⟨c, hlast, rfl⟩ := deleteTargetAt?_eq_some_iff.mp htarget
        exact .deleteTarget hdots hnodes hlast
      | none => exact .canvas hdots hnodes (deleteTargetAt?_eq_none_iff.mp htarget)

/-- What is topmost at a point is hit there. -/
theorem Topmost.hit_eq {h : Hit} (htop : g.Topmost config hovered p h) :
    g.hit config hovered p = h := by
  unfold hit
  cases htop with
  | output hlast houtput =>
    rw [dotAt?_eq_some_iff.mpr ⟨_, hlast, houtput, Or.inl rfl⟩]
  | @input n hlast hfar =>
    have hinput : (n.dot .input).IsNear config.pointRadius p := by
      obtain ⟨kind, hnear⟩ := hlast.1
      cases kind with
      | input => exact hnear
      | output => exact absurd hnear hfar
    rw [dotAt?_eq_some_iff.mpr ⟨_, hlast, hinput, Or.inr ⟨rfl, hfar⟩⟩]
  | node hdots hlast => rw [dotAt?_eq_none_iff.mpr hdots, nodeAt?_eq_some_iff.mpr hlast]
  | deleteTarget hdots hnodes hlast =>
    rw [dotAt?_eq_none_iff.mpr hdots, nodeAt?_eq_none_iff.mpr hnodes,
      deleteTargetAt?_eq_some_iff.mpr ⟨_, hlast, rfl⟩]
  | canvas hdots hnodes htargets =>
    rw [dotAt?_eq_none_iff.mpr hdots, nodeAt?_eq_none_iff.mpr hnodes,
      deleteTargetAt?_eq_none_iff.mpr htargets]

theorem hit_eq_iff {h : Hit} :
    g.hit config hovered p = h ↔ g.Topmost config hovered p h :=
  ⟨fun heq ↦ heq ▸ g.topmost_hit config hovered p, Topmost.hit_eq⟩

/-! ### The sort of a hit -/

theorem exists_hit_dot_iff :
    (∃ d, g.hit config hovered p = .dot d) ↔ ∃ n ∈ g.nodes, n.HasDotAt config.pointRadius p := by
  simp only [hit_eq_iff]
  constructor
  · rintro ⟨d, htop⟩
    cases htop with
    | output hlast _ => exact ⟨_, hlast.mem, hlast.1⟩
    | input hlast _ => exact ⟨_, hlast.mem, hlast.1⟩
  · intro hdots
    obtain ⟨n, hlast⟩ := exists_isLast_iff.mpr hdots
    by_cases houtput : (n.dot .output).IsNear config.pointRadius p
    · exact ⟨_, .output hlast houtput⟩
    · exact ⟨_, .input hlast houtput⟩

theorem exists_hit_node_iff :
    (∃ id origin, g.hit config hovered p = .node id origin) ↔
      (¬ ∃ n ∈ g.nodes, n.HasDotAt config.pointRadius p) ∧
        ∃ n ∈ g.nodes, n.contains p = true := by
  simp only [hit_eq_iff]
  constructor
  · rintro ⟨id, origin, htop⟩
    cases htop with
    | node hdots hlast => exact ⟨hdots, _, hlast.mem, hlast.1⟩
  · rintro ⟨hdots, hnodes⟩
    obtain ⟨n, hlast⟩ := exists_isLast_iff.mpr hnodes
    exact ⟨_, _, .node hdots hlast⟩

theorem exists_hit_deleteTarget_iff :
    (∃ id, g.hit config hovered p = .deleteTarget id) ↔
      (¬ ∃ n ∈ g.nodes, n.HasDotAt config.pointRadius p) ∧
        (¬ ∃ n ∈ g.nodes, n.contains p = true) ∧
          ∃ c ∈ g.connections, c.HasTargetAt (config.pressRadius hovered c.id) p := by
  simp only [hit_eq_iff]
  constructor
  · rintro ⟨id, htop⟩
    cases htop with
    | deleteTarget hdots hnodes hlast => exact ⟨hdots, hnodes, _, hlast.mem, hlast.1⟩
  · rintro ⟨hdots, hnodes, htargets⟩
    obtain ⟨c, hlast⟩ := exists_isLast_iff.mpr htargets
    exact ⟨_, .deleteTarget hdots hnodes hlast⟩

theorem hit_eq_canvas_iff :
    g.hit config hovered p = .canvas ↔
      (¬ ∃ n ∈ g.nodes, n.HasDotAt config.pointRadius p) ∧
        (¬ ∃ n ∈ g.nodes, n.contains p = true) ∧
          ¬ ∃ c ∈ g.connections, c.HasTargetAt (config.pressRadius hovered c.id) p := by
  rw [hit_eq_iff]
  constructor
  · intro htop
    cases htop with
    | canvas hdots hnodes htargets => exact ⟨hdots, hnodes, htargets⟩
  · rintro ⟨hdots, hnodes, htargets⟩
    exact .canvas hdots hnodes htargets

end Graph

end LayerCanvas
