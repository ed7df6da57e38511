import LayerCanvas.Proofs.Graph.Edit
import LayerCanvas.Graph.Load

/-!
What a load does, one statement for each of its checks. A load that succeeds has gone through all
nodes and then through all connections, so what the empty graph has and every accepted item keeps
holds of the loaded graph.
-/

set_option autoImplicit false
set_option relaxedAutoImplicit false

namespace LayerCanvas.Graph

variable {C R : Type} [Scalar C]

theorem foldlM_ok_induction {α β ε : Type} {P : β → Prop} {f : β → α → Except ε β}
    (hstep : ∀ b a b', P b → f b a = .ok b' → P b') {l : List α} {b b' : β} (hb : P b)
    (h : l.foldlM f b = .ok b') : P b' := by
  induction l generalizing b with
  | nil =>
    cases h
    exact hb
  | cons a rest ih =>
    rw [List.foldlM_cons] at h
    cases hres : f b a with
    | error e =>
      rw [hres] at h
      cases h
    | ok next =>
      rw [hres] at h
      exact ih (hstep b a next hb hres) h

theorem insertNode_eq_ok_iff {g g' : Graph C R} {n : Node C R} :
    g.insertNode n = .ok g' ↔
      n.id ∉ g.nodeIds ∧ n.hasValidGeometry = true ∧ g' = { g with nodes := g.nodes ++ [n] } := by
  unfold insertNode
  split_ifs with hmem hvalid
  · simp [contains_iff.mp hmem]
  · simp [show n.hasValidGeometry = false by simpa using hvalid]
  · simp [mt contains_iff.mpr hmem, show n.hasValidGeometry = true by simpa using hvalid, eq_comm]

theorem insertConnection_eq_ok_iff {g g' : Graph C R} {c : Connection C} :
    g.insertConnection c = .ok g' ↔
      c.id ∉ g.connectionIds ∧ c.source ≠ c.target ∧
        (∀ d ∈ g.connections, d.source = c.source → d.target ≠ c.target) ∧
          ∃ source target, g.node? c.source = some source ∧ g.node? c.target = some target ∧
            g' = { g with
              connections := g.connections ++ [(c.anchored source target).settled] } := by
  by_cases hid : g.containsConnection c.id = true
  · rw [insertConnection, if_pos hid]
    simp [containsConnection_iff.mp hid]
  by_cases hloop : c.source = c.target
  · rw [insertConnection, if_neg hid, if_pos hloop]
    simp [hloop]
  have hnew : c.id ∉ g.connectionIds := mt containsConnection_iff.mpr hid
  rw [insertConnection, if_neg hid, if_neg hloop]
  cases hsource : g.node? c.source with
  | none => simp
  | some source =>
    cases htarget : g.node? c.target with
    | none => simp
    | some target =>
      by_cases hpair : ∃ d ∈ g.connections, d.source = c.source ∧ d.target = c.target
      · have hany : (g.connections.any fun d ↦ d.source == c.source && d.target == c.target) =
            true := by simpa using hpair
        obtain ⟨d, hd, hs, ht⟩ := hpair
        simp only [hany, if_true, reduceCtorEq, false_iff]
        exact fun h ↦ h.2.2.1 d hd hs ht
      · have hunpaired : ∀ d ∈ g.connections, d.source = c.source → d.target ≠ c.target :=
          fun d hd hs ht ↦ hpair ⟨d, hd, hs, ht⟩
        have hany : (g.connections.any fun d ↦ d.source == c.source && d.target == c.target) =
            false := by simpa using hunpaired
        simp only [hany, Bool.false_eq_true, if_false, Except.ok.injEq]
        constructor
        · exact fun h ↦ ⟨hnew, hloop, hunpaired, source, target, rfl, rfl, h.symm⟩
        · rintro ⟨-, -, -, source', target', hs, ht, hg⟩
          cases hs
          cases ht
          exact hg.symm

/-- What the graph without nodes has and accepted items keep holds of a loaded graph. -/
theorem load_induction {P : Graph C R → Prop} {g g' : Graph C R} {s : Snapshot C R}
    (hempty : P (empty g.config g.serial))
    (hnode : ∀ g g' n, P g → g.insertNode n = .ok g' → P g')
    (hconnection : ∀ g g' c, P g → g.insertConnection c = .ok g' → P g')
    (h : g.load s = .ok g') : P g' := by
  unfold load at h
  cases hnodes : s.nodes.foldlM insertNode (empty g.config g.serial) with
  | error e =>
    rw [hnodes] at h
    cases h
  | ok withNodes =>
    rw [hnodes] at h
    have hwith : P withNodes :=
      foldlM_ok_induction (fun b a b' hb ↦ hnode b b' a hb) hempty hnodes
    exact foldlM_ok_induction (fun b a b' hb ↦ hconnection b b' a hb) hwith h

/-- A graph in which nothing moves, as a load leaves it. -/
structure AtRest (g : Graph C R) : Prop where
  leaving : g.leaving = []
  tweens : g.animator.tweens = []
  settled : ∀ c ∈ g.connections, c.isAnimating = false ∧ c.isDeleting = false ∧ c.progress = 1

theorem atRest_empty (config : EditorConfig C R) (serial : Nat) : AtRest (empty config serial) :=
  ⟨rfl, rfl, fun _ hc ↦ absurd hc List.not_mem_nil⟩

theorem AtRest.isAnimating {g : Graph C R} (h : g.AtRest) : g.isAnimating = false := by
  simp [Graph.isAnimating, Animator.isIdle, h.tweens]

theorem AtRest.insertNode {g g' : Graph C R} (h : g.AtRest) {n : Node C R}
    (hok : g.insertNode n = .ok g') : g'.AtRest := by
  obtain ⟨-, -, rfl⟩ := insertNode_eq_ok_iff.mp hok
  exact ⟨h.leaving, h.tweens, h.settled⟩

theorem AtRest.insertConnection {g g' : Graph C R} (h : g.AtRest) {c : Connection C}
    (hok : g.insertConnection c = .ok g') : g'.AtRest := by
  obtain ⟨-, -, -, source, target, -, -, rfl⟩ := insertConnection_eq_ok_iff.mp hok
  refine ⟨h.leaving, h.tweens, fun d hd ↦ ?_⟩
  rcases List.mem_append.mp hd with hd | hd
  · exact h.settled d hd
  · rw [List.mem_singleton.mp hd]
    exact ⟨rfl, rfl, rfl⟩

theorem atRest_load {g g' : Graph C R} {s : Snapshot C R} (h : g.load s = .ok g') : g'.AtRest :=
  load_induction (atRest_empty g.config g.serial) (fun _ _ _ h hok ↦ h.insertNode hok)
    (fun _ _ _ h hok ↦ h.insertConnection hok) h

end LayerCanvas.Graph
