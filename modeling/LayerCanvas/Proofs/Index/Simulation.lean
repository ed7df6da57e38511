import LayerCanvas.Proofs.Graph.WellFormed
import LayerCanvas.Proofs.Index.Edit

/-!
Ticks, loads and runs of a store. The store of a run holds the graph of the run, whichever places
the arena gives out.
-/

set_option autoImplicit false
set_option relaxedAutoImplicit false

namespace LayerCanvas

variable {C R : Type}

namespace Graph

theorem updateConnection_updateConnection (g : Graph C R) (id : ConnectionId)
    {f f' : Connection C → Connection C} (hf : ∀ c, (f c).id = c.id) :
    (g.updateConnection id f).updateConnection id f' = g.updateConnection id fun c ↦ f' (f c) := by
  simp only [updateConnection, List.map_map]
  congr 1
  refine List.map_congr_left fun c _ ↦ ?_
  by_cases hid : c.id = id <;> simp [hid, hf]

theorem dropConnection_updateConnection (g : Graph C R) (id : ConnectionId)
    {f : Connection C → Connection C} (hf : ∀ c, (f c).id = c.id) :
    (g.updateConnection id f).dropConnection id = g.dropConnection id := by
  simp only [dropConnection, updateConnection]
  congr 1
  induction g.connections with
  | nil => rfl
  | cons c rest ih => by_cases hid : c.id = id <;> simp [hid, hf, ih]

theorem nodes_dropNode (g : Graph C R) (id : NodeId) :
    (g.dropNode id).nodes = g.nodes.filter fun n ↦ n.id != id := by
  simp only [dropNode, ← List.foldl_map, foldl_dropConnection]

end Graph

theorem Agree.bind {ε α β α' β' : Type} {r : α → β → Prop} {r' : α' → β' → Prop}
    {x : Except ε α} {y : Except ε β} {f : α → Except ε α'} {f' : β → Except ε β'}
    (h : Agree r x y) (hf : ∀ a b, r a b → Agree r' (f a) (f' b)) :
    Agree r' (x >>= f) (y >>= f') := by
  cases h with
  | error e => exact .error e
  | ok h => exact hf _ _ h

theorem Agree.foldlM {ε α σ τ : Type} {r : σ → τ → Prop} {f : σ → α → Except ε σ}
    {f' : τ → α → Except ε τ} (hstep : ∀ s t a, r s t → Agree r (f s a) (f' t a)) {s : σ} {t : τ}
    (h : r s t) (l : List α) : Agree r (l.foldlM f s) (l.foldlM f' t) := by
  induction l generalizing s t with
  | nil => exact .ok h
  | cons a rest ih =>
    rw [List.foldlM_cons, List.foldlM_cons]
    exact (hstep s t a h).bind fun _ _ hnext ↦ ih hnext

namespace Store.Represents

variable {s : Store C R} {g : Graph C R}

/-! ### Ticks -/

theorem absorb (h : Represents s g) (sample : TweenSample C) :
    Represents (s.absorb sample) (g.absorb sample) := by
  unfold Store.absorb Graph.absorb
  rw [h.containsConnection_eq]
  cases hplace : s.edgeIndex[sample.id]? with
  | none => exact { h with animator := congrArg (fun a ↦ a.cancel sample.id) h.animator }
  | some place =>
    have hdrawn := h.modifyEdge hplace (f := fun c ↦ { c with progress := sample.progress })
      fun _ ↦ rfl
    simp only [Option.isSome_some, Bool.not_true, Bool.false_eq_true, if_false]
    cases sample.kind with
    | creation =>
      have hset := hdrawn.modifyEdge hplace
        (f := fun c ↦ { c with isAnimating := !sample.finished }) fun _ ↦ rfl
      rw [Graph.updateConnection_updateConnection] at hset
      · exact hset
      · exact fun _ ↦ rfl
    | deletion =>
      cases sample.finished with
      | false => exact hdrawn
      | true =>
        have hpurged := hdrawn.purge hplace
        rw [Graph.dropConnection_updateConnection] at hpurged
        · exact hpurged
        · exact fun _ ↦ rfl

theorem ready (h : Represents s g) : s.ready = g.ready := by
  unfold Store.ready Graph.ready
  rw [h.leaving]
  refine List.filter_congr fun id _ ↦ ?_
  rw [h.contains_eq]
  cases hplace : s.nodeIndex[id]? with
  | none => rfl
  | some place => simp [h.isEmpty_touching hplace]

theorem foldl_removeNodeNow (h : Represents s g) (ids : List NodeId) (hnodup : ids.Nodup)
    (hids : ∀ id ∈ ids, id ∈ g.nodeIds) :
    Represents (ids.foldl Store.removeNodeNow s) (ids.foldl Graph.dropNode g) := by
  induction ids generalizing s g with
  | nil => exact h
  | cons id rest ih =>
    obtain ⟨hnot, hrest⟩ := List.nodup_cons.mp hnodup
    refine ih (h.removeNodeNow (hids id List.mem_cons_self)) hrest fun other hother ↦ ?_
    have hne : other ≠ id := fun heq ↦ hnot (heq ▸ hother)
    obtain ⟨n, hn, hnid⟩ := List.mem_map.mp (hids other (List.mem_cons_of_mem _ hother))
    rw [Graph.nodeIds, Graph.nodes_dropNode]
    exact List.mem_map.mpr ⟨n, List.mem_filter.mpr ⟨hn, by simpa [hnid] using hne⟩, hnid⟩

/-- Nodes that wait only once and are there go the same way in the store and in the graph. -/
theorem tickWith [Scalar R] (h : Represents s g) (hnodup : g.leaving.Nodup)
    (hmem : ∀ id ∈ g.leaving, id ∈ g.nodeIds) (samples : List (TweenSample C)) (now : R) :
    Represents (s.tickWith samples now).1 (g.tickWith samples now).1 ∧
      (s.tickWith samples now).2 = (g.tickWith samples now).2 := by
  have hadvanced : Represents { s with animator := s.animator.advance now }
      { g with animator := g.animator.advance now } :=
    { h with animator := congrArg (fun a ↦ a.advance now) h.animator }
  have habsorbed : Represents
      (samples.foldl Store.absorb { s with animator := s.animator.advance now })
      ({ g with animator := g.animator.advance now }.absorbAll samples) :=
    List.foldl_rel hadvanced fun sample _ _ _ hstep ↦ hstep.absorb sample
  obtain ⟨-, hnodes, hleaving, -⟩ :=
    Graph.absorbAll_frame { g with animator := g.animator.advance now } samples
  have hafter := habsorbed.foldl_removeNodeNow
    ({ g with animator := g.animator.advance now }.absorbAll samples).ready
    (by rw [Graph.ready, hleaving]; exact hnodup.filter _)
    (fun id hid ↦ by
      rw [Graph.ready, hleaving] at hid
      rw [Graph.nodeIds, hnodes]
      exact hmem id (List.mem_of_mem_filter hid))
  have hpurges : s.purges = g.purges := funext fun sample ↦ by
    rw [Store.purges, Graph.purges, h.contains_edgeIndex]
  simp only [Store.tickWith, Graph.tickWith, habsorbed.ready, hpurges, hafter.animator,
    Graph.isAnimating, and_true]
  exact hafter

/-! ### Loads -/

variable [Scalar C]

theorem insertConnection (h : Represents s g) (slots : Slots) (c : Connection C) :
    Agree Represents (s.insertConnection slots c) (g.insertConnection c) := by
  unfold Store.insertConnection Graph.insertConnection
  rw [h.contains_edgeIndex]
  by_cases hmem : g.containsConnection c.id = true
  · rw [if_pos hmem, if_pos hmem]
    exact .error _
  by_cases hloop : c.source = c.target
  · rw [if_neg hmem, if_neg hmem, if_pos hloop, if_pos hloop]
    exact .error _
  rw [if_neg hmem, if_neg hmem, if_neg hloop, if_neg hloop, ← h.map_node?, ← h.map_node?]
  cases hsource : s.node? c.source with
  | none => exact .error _
  | some entry =>
    obtain ⟨a, source⟩ := entry
    cases htarget : s.node? c.target with
    | none => exact .error _
    | some entry =>
      obtain ⟨b, target⟩ := entry
      have ha := h.place_of_node? hsource
      have hb := h.place_of_node? htarget
      simp only [Option.map_some, h.joins_eq ha hb]
      split_ifs
      · exact .error _
      · exact .ok (h.pushEdge slots (c := (c.anchored source target).settled)
          (mt Graph.containsConnection_iff.mpr hmem) ha hb)

theorem load (h : Represents s g) (slots : Slots) (snapshot : Snapshot C R) :
    Agree Represents (s.load slots snapshot) (g.load snapshot) := by
  unfold Store.load Graph.load
  rw [h.config, h.serial]
  have hnodes := Agree.foldlM (fun _ _ n hstep ↦ hstep.insertNode slots n)
    (Represents.empty g.config g.serial s.arena.given) snapshot.nodes
  exact hnodes.bind fun _ _ hwith ↦
    Agree.foldlM (fun _ _ c hstep ↦ hstep.insertConnection slots c) hwith snapshot.connections

theorem loadDocument [Scalar R] [Precision C R] (h : Represents s g) (slots : Slots)
    (document : Option (Snapshot C R)) :
    Agree Represents (s.loadDocument slots document) (g.loadDocument document) := by
  cases document with
  | none => exact .error _
  | some snapshot => exact h.load slots snapshot

/-! ### Runs -/

variable [Scalar R] [Precision C R]

omit [Scalar C] in
theorem tickIn (h : Represents s g) (hg : g.WellFormed) (now : R) (order : SampleOrder C) :
    Represents (s.tickIn now order).1 (g.tickIn now order).1 ∧
      (s.tickIn now order).2 = (g.tickIn now order).2 := by
  unfold Store.tickIn Graph.tickIn
  rw [h.animator]
  exact h.tickWith hg.leaving_nodup hg.leaving_mem _ now

theorem apply (h : Represents s g) (hg : g.WellFormed) (slots : Slots) (call : Call C R) :
    Represents (s.apply slots call) (g.apply call) := by
  cases call with
  | addNode layer origin => exact (h.addNode slots layer origin).1
  | insertNode n => exact h.of_agree (h.insertNode slots n)
  | bringToFront id => exact h.bringToFront id
  | moveNode id origin => exact h.of_rel (h.moveNode? id origin)
  | deleteNode id => exact h.deleteNode id
  | clear => exact h.clear
  | setParam id name value => exact h.of_agree (h.setParam id name value)
  | addConnection source target start stop =>
    have hmade := h.addConnection? slots source target start stop
    refine h.of_rel ?_
    generalize s.addConnection? slots source target start stop = made at hmade ⊢
    generalize g.addConnection? source target start stop = made' at hmade ⊢
    cases hmade with
    | none => exact .none
    | some hmade => exact .some hmade.1
  | deleteConnection id => exact h.deleteConnection id
  | tick now order => exact (h.tickIn hg now order).1
  | load snapshot => exact h.of_agree (h.load slots snapshot)
  | loadDocument document => exact h.of_agree (h.loadDocument slots document)
  | drawNames count => exact { h with serial := congrArg (fun n ↦ n + count) h.serial }

theorem applyAll (h : Represents s g) (hg : g.WellFormed) (slots : Slots)
    (calls : List (Call C R)) :
    Represents (calls.foldl (Store.apply slots) s) (g.applyAll calls) := by
  induction calls generalizing s g with
  | nil => exact h
  | cons call rest ih => exact ih (h.apply hg slots call) (hg.apply call)

end Store.Represents

variable [Scalar C] [Scalar R] [Precision C R]

/-- The store of a run holds the graph of the run. -/
theorem Store.represents_run (slots : Slots) (config : EditorConfig C R) (serial : Nat)
    (calls : List (Call C R)) :
    Represents (run slots config serial calls) (Graph.run config serial calls) :=
  (Represents.empty config serial 0).applyAll (.empty config serial) slots calls

end LayerCanvas
