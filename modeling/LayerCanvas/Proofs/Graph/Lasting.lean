import LayerCanvas.Proofs.Graph.WellFormed

/-!
What lasts of a graph. A deleted connection no longer counts and a deleted node waits for the
connections at it, so the nodes that do not wait and the connections that are live are there to
stay. A tick takes nothing away from them, at whatever time it comes and in whatever order its
samples do: only the end of a deletion takes a connection away, and the tween of a live connection
is that of its creation. What a tick does take away are nodes that wait.
-/

set_option autoImplicit false
set_option relaxedAutoImplicit false

namespace LayerCanvas.Graph

variable {C R : Type}

/-- The nodes that do not wait to go. -/
def stayingNodes (g : Graph C R) : List (Node C R) := g.nodes.filter fun n ↦ !g.isLeaving n.id

/-- Every tween of a live connection is that of its creation. -/
def SparesLive (g : Graph C R) : Prop :=
  ∀ c ∈ g.connections, c.isDeleting = false → ∀ t, g.animator.find? c.id = some t →
    t.kind = .creation

/-- What a graph keeps when nothing is done to it but ticks. -/
structure Lasts (g g' : Graph C R) : Prop where
  stayingNodes : g'.stayingNodes = g.stayingNodes
  outlines : g'.liveConnections.map Connection.outline = g.liveConnections.map Connection.outline
  nodes : g'.nodes.Sublist g.nodes
  leaving : g'.leaving.Sublist g.leaving

variable {g g' : Graph C R}

namespace Lasts

theorem refl (g : Graph C R) : Lasts g g := ⟨rfl, rfl, List.Sublist.refl _, List.Sublist.refl _⟩

theorem trans {g'' : Graph C R} (h : Lasts g g') (h' : Lasts g' g'') : Lasts g g'' where
  stayingNodes := h'.stayingNodes.trans h.stayingNodes
  outlines := h'.outlines.trans h.outlines
  nodes := h'.nodes.trans h.nodes
  leaving := h'.leaving.trans h.leaving

end Lasts

theorem stayingNodes_of_leaving (h : g.leaving = []) : g.stayingNodes = g.nodes := by
  simp [stayingNodes, isLeaving, h]

/-- Every node waits or stays. -/
theorem length_nodes (h : g.WellFormed) :
    g.nodes.length = g.stayingNodes.length + g.leaving.length := by
  have hperm : (g.nodeIds.filter g.isLeaving).Perm g.leaving := by
    refine (List.perm_ext_iff_of_nodup (h.nodeIds_nodup.filter _) h.leaving_nodup).mpr fun id ↦ ?_
    rw [List.mem_filter, isLeaving_iff]
    exact ⟨And.right, fun hid ↦ ⟨h.leaving_mem id hid, hid⟩⟩
  have hwaiting : (g.nodes.filter fun n ↦ g.isLeaving n.id).length = g.leaving.length := by
    rw [← hperm.length_eq, nodeIds, List.filter_map, List.length_map]
    rfl
  have hsplit := List.filter_append_perm (fun n : Node C R ↦ !g.isLeaving n.id) g.nodes
  calc g.nodes.length
      = (g.stayingNodes ++ g.nodes.filter fun n ↦ !!g.isLeaving n.id).length :=
        hsplit.length_eq.symm
    _ = g.stayingNodes.length + g.leaving.length := by
        simp only [Bool.not_not, List.length_append, hwaiting]

namespace SparesLive

/-! ### Changes -/

theorem empty (config : EditorConfig C R) (serial : Nat) : (empty config serial).SparesLive :=
  fun _ hc ↦ absurd hc List.not_mem_nil

/-- A tween that is started leaves those of other connections alone. -/
theorem start (h : g.SparesLive) {id : ConnectionId} {kind : TweenKind} {c : Connection C}
    (hc : c ∈ g.connections) (hlive : c.isDeleting = false) (hid : c.id ≠ id) {t : Tween R}
    (ht : (g.animator.start id kind).find? c.id = some t) : t.kind = .creation := by
  rw [Animator.find?_start, if_neg hid] at ht
  exact h c hc hlive t ht

theorem deleteConnection (h : g.SparesLive) (id : ConnectionId) :
    (g.deleteConnection id).SparesLive := by
  rcases g.deleteConnection_eq id with heq | ⟨-, heq⟩
  · rwa [heq]
  · rw [heq]
    intro d hd hlive t ht
    obtain ⟨c, hc, rfl⟩ := List.mem_map.mp hd
    split_ifs at hlive ht with hid
    exact h.start hc hlive hid ht

theorem fadeAll (h : g.SparesLive) (ids : List ConnectionId) : (g.fadeAll ids).SparesLive := by
  induction ids generalizing g with
  | nil => exact h
  | cons id rest ih => exact ih (h.deleteConnection id)

theorem change [Scalar C] (h : g.SparesLive) (hstep : Change g g') : g'.SparesLive := by
  cases hstep with
  | alike hlike =>
    intro d hd hlive t ht
    obtain ⟨c, hc, hstate⟩ := List.mem_map.mp (hlike.states ▸ List.mem_map_of_mem hd)
    have hid : c.id = d.id := congrArg (fun state ↦ state.1.1) hstate
    have hdeleting : c.isDeleting = d.isDeleting := congrArg (fun state ↦ state.2.2.1) hstate
    rw [hlike.animator, ← hid] at ht
    exact h c hc (hdeleting.trans hlive) t ht
  | place n serial hn => exact h
  | connect id source target start stop serial hid hok =>
    intro d hd hlive t ht
    rcases List.mem_append.mp hd with hold | hnew
    · have hne : d.id ≠ id := fun heq ↦ hid (heq ▸ mem_connectionIds hold)
      exact h.start hold hlive hne ht
    · rw [List.mem_singleton.mp hnew, Connection.id_new] at ht
      have hfresh : (g.animator.start id .creation).find? id = some t := ht
      rw [Animator.find?_start, if_pos rfl] at hfresh
      rw [← Option.some.inj hfresh]
  | fade id => exact h.deleteConnection id
  | remove id hmem hstays huntouched => exact h
  | await id hmem hstays htouched => exact h.fadeAll _

/-! ### Loads and ticks -/

theorem load [Scalar C] {s : Snapshot C R} (hok : g.load s = .ok g') : g'.SparesLive := by
  intro c _ _ t ht
  rw [Animator.find?, (atRest_load hok).tweens] at ht
  cases ht

variable [Scalar R] [Precision C R]

theorem ticked (h : g.SparesLive) (hwell : g.WellFormed) (now : R) : (g.ticked now).SparesLive := by
  intro d hd hlive t' ht'
  obtain ⟨c, hc, hafter⟩ := mem_connections_ticked_iff.mp hd
  obtain ⟨hlink, hdeleting, -⟩ := Connection.after?_frame hafter
  have hid : d.id = c.id := congrArg Prod.fst hlink
  rw [find?_ticked hwell.tweens_nodup, hid, Option.filter_eq_some_iff] at ht'
  obtain ⟨t, ht, rfl⟩ := Option.map_eq_some_iff.mp ht'.1
  exact h c hc (hdeleting.symm.trans hlive) t ht

/-- A tick leaves every live connection, which it only brings on in its creation. -/
theorem exists_after? (h : g.SparesLive) {c : Connection C} (hc : c ∈ g.connections)
    (hlive : c.isDeleting = false) (now : R) :
    ∃ d, c.after? g.animator now = some d ∧ d.outline = c.outline ∧ d.isDeleting = false := by
  cases hafter : c.after? g.animator now with
  | some d =>
    exact ⟨d, rfl, Connection.outline_after? hafter,
      (Connection.after?_frame hafter).2.1.trans hlive⟩
  | none =>
    unfold Connection.after? at hafter
    cases ht : g.animator.find? c.id with
    | none => simp [ht] at hafter
    | some t =>
      rw [ht] at hafter
      have hpurges := (Connection.absorb?_eq_none_iff.mp hafter).2
      simp [TweenSample.purges, Tween.sample, Tween.latch, h c hc hlive t ht] at hpurges

end SparesLive

variable [Scalar C] [Scalar R] [Precision C R]

theorem sparesLive_run (config : EditorConfig C R) (serial : Nat) (calls : List (Call C R)) :
    (run config serial calls).SparesLive := by
  have h : (run config serial calls).WellFormed ∧ (run config serial calls).SparesLive := by
    refine run_induction (P := fun g ↦ g.WellFormed ∧ g.SparesLive)
      ⟨.empty config serial, .empty config serial⟩ (fun g call h ↦ ⟨h.1.apply call, ?_⟩) calls
    refine (apply_invariant (P := fun g ↦ g.WellFormed ∧ g.SparesLive) (fun _ _ h hstep ↦ ?_)
      (fun g now order h ↦ ?_) (fun g _ _ _ hok ↦ ⟨.load g hok, .load hok⟩) g call h).2
    · exact ⟨h.1.change hstep, h.2.change hstep⟩
    · rw [(tickIn_eq h.1.tickable now order).1]
      exact ⟨h.1.ticked now, h.2.ticked h.1 now⟩
  exact h.2

/-! ### Ticks -/

omit [Scalar C] in
theorem outlines_ticked (h : g.SparesLive) (now : R) :
    (g.ticked now).liveConnections.map Connection.outline =
      g.liveConnections.map Connection.outline := by
  have hfate := fun c hc hlive ↦ h.exists_after? (c := c) hc hlive now
  unfold liveConnections ticked tickedConnections
  dsimp only
  generalize g.connections = connections at hfate ⊢
  induction connections with
  | nil => rfl
  | cons c rest ih =>
    have hrest := ih fun d hd ↦ hfate d (List.mem_cons_of_mem c hd)
    by_cases hc : c.isDeleting = true
    · have hgone : c.isLive = false := by simp [Connection.isLive, hc]
      cases hafter : c.after? g.animator now with
      | none => simpa [hafter, hgone] using hrest
      | some d =>
        have hd : d.isLive = false := by
          simp [Connection.isLive, (Connection.after?_frame hafter).2.1, hc]
        simpa [hafter, hgone, hd] using hrest
    · have hlive : c.isDeleting = false := by simpa using hc
      obtain ⟨d, hafter, houtline, hd⟩ := hfate c List.mem_cons_self hlive
      simpa [hafter, Connection.isLive, hlive, hd, houtline] using hrest

omit [Scalar C] in
theorem stayingNodes_ticked (g : Graph C R) (now : R) :
    (g.ticked now).stayingNodes = g.stayingNodes := by
  unfold stayingNodes
  show ((g.nodes.filter fun n ↦ !(g.released now).contains n.id).filter
    fun n ↦ !(g.ticked now).isLeaving n.id) = _
  rw [List.filter_filter]
  refine List.filter_congr fun n _ ↦ ?_
  have hsub : n.id ∈ g.released now → n.id ∈ g.leaving := fun h ↦ (mem_released_iff.mp h).1
  have hleaving : n.id ∈ (g.ticked now).leaving ↔ n.id ∈ g.leaving ∧ n.id ∉ g.released now := by
    simp [ticked]
  rw [Bool.eq_iff_iff]
  simp only [Bool.and_eq_true, Bool.not_eq_true', isLeaving, List.contains_eq_mem,
    decide_eq_false_iff_not, hleaving]
  tauto

omit [Scalar C] in
theorem lasts_ticked (h : g.SparesLive) (now : R) : Lasts g (g.ticked now) where
  stayingNodes := g.stayingNodes_ticked now
  outlines := outlines_ticked h now
  nodes := List.filter_sublist
  leaving := List.filter_sublist

/-- Several ticks one after the other, each with an order of its samples. -/
def tickAll (g : Graph C R) (ticks : List (R × SampleOrder C)) : Graph C R :=
  g.applyAll (ticks.map fun tick ↦ .tick tick.1 tick.2)

/-- Whatever the times of the ticks, what is there to stay stays as it is. -/
theorem lasts_tickAll (hwell : g.WellFormed) (h : g.SparesLive) (ticks : List (R × SampleOrder C)) :
    (g.tickAll ticks).WellFormed ∧ Lasts g (g.tickAll ticks) := by
  induction ticks generalizing g with
  | nil => exact ⟨hwell, .refl g⟩
  | cons tick rest ih =>
    have hnext : g.apply (.tick tick.1 tick.2) = g.ticked tick.1 :=
      (tickIn_eq hwell.tickable tick.1 tick.2).1
    have hrest := ih (hwell.ticked tick.1) (h.ticked hwell tick.1)
    rw [tickAll, List.map_cons, applyAll_cons, hnext]
    exact ⟨hrest.1, (lasts_ticked h tick.1).trans hrest.2⟩

end LayerCanvas.Graph
