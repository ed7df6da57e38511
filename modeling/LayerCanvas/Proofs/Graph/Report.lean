import LayerCanvas.Proofs.Graph.Lasting

/-!
What a tick reports. The table of tweens is gone through in an order of its own, and the connections
that have faded are listed in that order as they go. The report is still the difference between the
two graphs: it names what was there before the tick and is not there after it, everything once, and
only what had been deleted. Neither the graph nor the nodes that are reported depend on the order.
-/

set_option autoImplicit false
set_option relaxedAutoImplicit false

namespace LayerCanvas

variable {C R : Type}

/-- A report that is the difference between the graph before a tick and the graph after it. -/
structure TickOutcome.Reports (outcome : TickOutcome) (before after : Graph C R) : Prop where
  purged_nodup : outcome.purged.Nodup
  mem_purged_iff : ∀ id, id ∈ outcome.purged ↔
    before.containsConnection id = true ∧ after.containsConnection id = false
  purged_fading : ∀ c ∈ before.connections, c.id ∈ outcome.purged → c.isDeleting = true
  removed_nodup : outcome.removed.Nodup
  mem_removed_iff : ∀ id, id ∈ outcome.removed ↔
    before.contains id = true ∧ after.contains id = false
  removed_leaving : ∀ id ∈ outcome.removed, before.isLeaving id = true
  needsFrame_eq : outcome.needsFrame = after.isAnimating

namespace Graph

variable [Scalar R] [Precision C R] {g : Graph C R}

/-! ### Connections -/

theorem nodup_purged (h : g.Tickable) (now : R) (order : SampleOrder C) :
    (g.tickIn now order).2.purged.Nodup := by
  have hids : ((order.arrange (g.animator.samples now)).map TweenSample.id).Nodup := by
    rw [((order.perm _).map TweenSample.id).nodup_iff, g.animator.ids_samples]
    exact h.tweens_nodup
  exact hids.sublist (List.filter_sublist.map TweenSample.id)

/-- The order of the samples shows in nothing but the order of the connections that go. -/
theorem purged_perm (g : Graph C R) (now : R) (order order' : SampleOrder C) :
    (g.tickIn now order).2.purged.Perm (g.tickIn now order').2.purged :=
  (((order.perm _).trans (order'.perm _).symm).filter _).map _

/-- The connections that are purged are those that the tick takes away. -/
theorem mem_purged_iff_gone (h : g.WellFormed) {now : R} {order : SampleOrder C}
    {id : ConnectionId} :
    id ∈ (g.tickIn now order).2.purged ↔
      id ∈ g.connectionIds ∧ id ∉ (g.ticked now).connectionIds := by
  rw [mem_purged_iff h.tickable]
  constructor
  · rintro ⟨c, hc, rfl, hgone⟩
    refine ⟨mem_connectionIds hc, fun hstays ↦ ?_⟩
    obtain ⟨d, hd, hdid⟩ := List.mem_map.mp hstays
    obtain ⟨c', hc', hafter⟩ := mem_connections_ticked_iff.mp hd
    have hid : c'.id = c.id :=
      (congrArg Prod.fst (Connection.after?_frame hafter).1).symm.trans hdid
    have hsame : c' = c := List.inj_on_of_nodup_map h.connectionIds_nodup hc' hc hid
    rw [hsame, hgone] at hafter
    cases hafter
  · rintro ⟨hmem, hgone⟩
    obtain ⟨c, hc, rfl⟩ := List.mem_map.mp hmem
    refine ⟨c, hc, rfl, Option.eq_none_iff_forall_ne_some.mpr fun d hd ↦ hgone ?_⟩
    have hdid : d.id = c.id := congrArg Prod.fst (Connection.after?_frame hd).1
    rw [← hdid]
    exact mem_connectionIds (mem_connections_ticked_iff.mpr ⟨c, hc, hd⟩)

theorem isDeleting_of_mem_purged (h : g.WellFormed) (hspares : g.SparesLive) {now : R}
    {order : SampleOrder C} {c : Connection C} (hc : c ∈ g.connections)
    (hpurged : c.id ∈ (g.tickIn now order).2.purged) : c.isDeleting = true := by
  by_contra hlive
  obtain ⟨d, hd, -⟩ := hspares.exists_after? hc (by simpa using hlive) now
  obtain ⟨c', hc', hid, hgone⟩ := (mem_purged_iff h.tickable).mp hpurged
  have hsame : c' = c := List.inj_on_of_nodup_map h.connectionIds_nodup hc' hc hid
  rw [hsame, hd] at hgone
  cases hgone

/-! ### Nodes -/

/-- The nodes that are released are those that the tick takes away. -/
theorem mem_released_iff_gone (h : g.WellFormed) {now : R} {id : NodeId} :
    id ∈ g.released now ↔ id ∈ g.nodeIds ∧ id ∉ (g.ticked now).nodeIds := by
  constructor
  · intro hreleased
    refine ⟨h.leaving_mem id (mem_released_iff.mp hreleased).1, fun hstays ↦ ?_⟩
    obtain ⟨n, hn, rfl⟩ := List.mem_map.mp hstays
    have hkept := (List.mem_filter.mp hn).2
    simp [hreleased] at hkept
  · rintro ⟨hmem, hgone⟩
    obtain ⟨n, hn, rfl⟩ := List.mem_map.mp hmem
    by_contra hkept
    exact hgone (List.mem_map_of_mem (List.mem_filter.mpr ⟨hn, by simpa using hkept⟩))

/-! ### The report as a whole -/

theorem reports_tickIn (h : g.WellFormed) (hspares : g.SparesLive) (now : R)
    (order : SampleOrder C) : (g.tickIn now order).2.Reports g (g.tickIn now order).1 := by
  obtain ⟨hafter, hremoved⟩ := tickIn_eq h.tickable now order
  constructor
  · exact nodup_purged h.tickable now order
  · intro id
    rw [mem_purged_iff_gone h, hafter, ← Bool.not_eq_true, containsConnection_iff,
      containsConnection_iff]
  · exact fun c hc ↦ isDeleting_of_mem_purged h hspares hc
  · rw [hremoved]
    exact h.leaving_nodup.filter _
  · intro id
    rw [hremoved, mem_released_iff_gone h, hafter, ← Bool.not_eq_true, contains_iff, contains_iff]
  · intro id hid
    rw [hremoved] at hid
    exact isLeaving_iff.mpr (mem_released_iff.mp hid).1
  · rfl

/-- After every run, a tick at any time leads to one graph and removes one list of nodes, whatever
the order in which it goes through the samples, and the connections that it purges are the same up
to their order. What it reports is what it has taken away, each part once and all of it deleted
before, and it asks for a frame exactly if animations are still under way. -/
theorem tick_reports_difference [Scalar C] (config : EditorConfig C R) (serial : Nat)
    (calls : List (Call C R)) (now : R) (order order' : SampleOrder C) :
    let g := run config serial calls
    (g.tickIn now order).1 = (g.tickIn now order').1 ∧
      (g.tickIn now order).2.removed = (g.tickIn now order').2.removed ∧
        (g.tickIn now order).2.purged.Perm (g.tickIn now order').2.purged ∧
          (g.tickIn now order).2.Reports g (g.tickIn now order).1 := by
  intro g
  have hwell : g.WellFormed := wellFormed_run config serial calls
  obtain ⟨hafter, hremoved⟩ := tickIn_eq hwell.tickable now order
  obtain ⟨hafter', hremoved'⟩ := tickIn_eq hwell.tickable now order'
  refine ⟨hafter.trans hafter'.symm, hremoved.trans hremoved'.symm, g.purged_perm now order order',
    ?_⟩
  exact reports_tickIn hwell (sparesLive_run config serial calls) now order

end Graph

end LayerCanvas
