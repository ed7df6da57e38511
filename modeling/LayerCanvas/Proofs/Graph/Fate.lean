import LayerCanvas.Proofs.Graph.Deletion
import LayerCanvas.Proofs.Graph.Phase

/-!
What becomes of a connection in one call. While no time passes, none shows more or less than it did.
One that is there stays as it is or is told to fade, and then it has a tween that has not started; a
new one shows nothing, and has such a tween too. A connection that is fading goes on as it did. Only
a tick changes what is shown.
-/

set_option autoImplicit false
set_option relaxedAutoImplicit false

namespace LayerCanvas.Graph

variable {C R : Type} [Scalar C] {g g' : Graph C R} {c d : Connection C}

/-! ### While no time passes -/

/-- What has become of a connection when no time has passed. The animator is the one after. -/
inductive Fate (g : Graph C R) (a : Animator R) (d : Connection C) : Prop
  | kept (c : Connection C) (hc : c ∈ g.connections) (hid : d.id = c.id)
    (hprogress : d.progress = c.progress) (hdeleting : d.isDeleting = c.isDeleting)
    (htween : a.find? d.id = g.animator.find? c.id)
  | faded (c : Connection C) (hc : c ∈ g.connections) (hid : d.id = c.id)
    (hprogress : d.progress = c.progress) (hlive : c.isDeleting = false)
    (htween : a.find? d.id = some ⟨.deletion, g.animator.duration .deletion, none⟩)
  | made (hid : d.id ∉ g.connectionIds) (hprogress : d.progress = 0)
    (htween : a.find? d.id = some ⟨.creation, g.animator.duration .creation, none⟩)

omit [Scalar C] in
theorem reached_of_mem (h : g.connectionIds.Nodup) (hc : c ∈ g.connections)
    (requests : List Deletion) :
    g.reached requests c.id = (c.isLive && c.isReached requests) := by
  rw [Bool.eq_iff_iff, reached, List.any_eq_true]
  simp only [mem_liveConnections, Bool.and_eq_true, beq_iff_eq, Connection.isLive_iff]
  constructor
  · rintro ⟨c', ⟨hc', hlive⟩, hid, hreached⟩
    rw [← List.inj_on_of_nodup_map h hc' hc hid]
    exact ⟨hlive, hreached⟩
  · rintro ⟨hlive, hreached⟩
    exact ⟨c, ⟨hc, hlive⟩, rfl, hreached⟩

/-- Requests to delete let some connections fade and leave the others alone. -/
theorem Deleted.fate {requests : List Deletion} (h : Deleted g requests g')
    (hnodup : g.connectionIds.Nodup) (hd : d ∈ g'.connections) : Fate g g'.animator d := by
  rw [h.connections] at hd
  obtain ⟨c, hc, rfl⟩ := List.mem_map.mp hd
  have hid : (c.fadedBy requests).id = c.id := congrArg Prod.fst (c.link_fadedBy requests)
  have htween := h.tweens (c.fadedBy requests).id
  rw [hid, reached_of_mem hnodup hc requests] at htween
  cases hreached : c.isReached requests with
  | false =>
    have hsame : c.fadedBy requests = c := by rw [Connection.fadedBy, hreached]; rfl
    rw [hsame]
    refine .kept c hc rfl rfl rfl ?_
    simpa [hreached] using htween
  | true =>
    have hfade : c.fadedBy requests = c.fade := by rw [Connection.fadedBy, hreached]; rfl
    rw [hfade]
    cases hdeleting : c.isDeleting with
    | true =>
      rw [Connection.fade_of_isDeleting hdeleting]
      refine .kept c hc rfl rfl rfl ?_
      simpa [Connection.isLive, hdeleting] using htween
    | false =>
      have hprogress : c.fade.progress = c.progress := by simp [Connection.fade, hdeleting]
      have hid' : c.fade.id = c.id := hfade ▸ hid
      refine .faded c hc hid' hprogress hdeleting ?_
      rw [hid']
      simpa [Connection.isLive, Animator.duration, hdeleting, hreached] using htween

/-- What a change makes of a connection. -/
theorem Change.fate (hstep : Change g g') (h : g.WellFormed) (hd : d ∈ g'.connections) :
    Fate g g'.animator d := by
  cases hstep with
  | alike hlike =>
    obtain ⟨c, hc, hstate⟩ := List.mem_map.mp (hlike.states ▸ List.mem_map_of_mem hd)
    have hid : d.id = c.id := congrArg (fun state ↦ state.1.1) hstate.symm
    refine .kept c hc hid (congrArg (fun state ↦ state.2.2.2) hstate.symm)
      (congrArg (fun state ↦ state.2.2.1) hstate.symm) ?_
    rw [hlike.animator, hid]
  | place n serial hn => exact .kept d hd rfl rfl rfl rfl
  | connect id source target start stop serial hid hok =>
    rcases List.mem_append.mp hd with hold | hnew
    · have hne : d.id ≠ id := fun heq ↦ hid (heq ▸ mem_connectionIds hold)
      exact .kept d hold rfl rfl rfl ((Animator.find?_start ..).trans (if_neg hne))
    · rw [List.mem_singleton.mp hnew]
      exact .made hid rfl ((Animator.find?_start ..).trans (if_pos rfl))
  | fade id =>
    exact (deleted_deleteConnection h.connectionIds_nodup id).fate h.connectionIds_nodup hd
  | remove id hmem hstays huntouched => exact .kept d hd rfl rfl rfl rfl
  | await id hmem hstays htouched =>
    exact (deleted_fadeAll h _).fate h.connectionIds_nodup hd

theorem Change.duration (hstep : Change g g') (h : g.WellFormed) :
    g'.animator.duration = g.animator.duration := by
  cases hstep with
  | alike hlike => rw [hlike.animator]
  | place n serial hn => rfl
  | connect id source target start stop serial hid hok => rfl
  | fade id => exact (deleted_deleteConnection h.connectionIds_nodup id).duration
  | remove id hmem hstays huntouched => rfl
  | await id hmem hstays htouched => exact (deleted_fadeAll h _).duration

/-- What no call does to a connection while no time passes: it shows as much as it did, it goes on
fading as it did, and if it was told to fade, it has not begun to. -/
structure StandsAs (g g' : Graph C R) (c d : Connection C) : Prop where
  id_eq : d.id = c.id
  progress_eq : d.progress = c.progress
  fading : c.isDeleting = true →
    d.isDeleting = true ∧ g'.animator.find? d.id = g.animator.find? c.id
  asked : c.isDeleting = false → d.isDeleting = true →
    g'.animator.find? d.id = some ⟨.deletion, g.animator.duration .deletion, none⟩

/-- A graph that has come from another one while no time passed. -/
structure Stands (g g' : Graph C R) : Prop where
  ids : g.connectionIds ⊆ g'.connectionIds
  duration : g'.animator.duration = g.animator.duration
  origin : ∀ d ∈ g'.connections, d.id ∈ g.connectionIds → ∃ c ∈ g.connections, StandsAs g g' c d

namespace Stands

omit [Scalar C] in
theorem refl (g : Graph C R) : Stands g g := by
  refine ⟨List.Subset.refl _, rfl, fun d hd _ ↦ ⟨d, hd, rfl, rfl, fun h ↦ ⟨h, rfl⟩, ?_⟩⟩
  intro hlive hdeleting
  rw [hlive] at hdeleting
  cases hdeleting

theorem change {g'' : Graph C R} (h : Stands g g') (hwell : g'.WellFormed)
    (hstep : Change g' g'') : Stands g g'' := by
  have hids := List.Subset.trans h.ids (Grows.change hstep).ids
  refine ⟨hids, (hstep.duration hwell).trans h.duration, fun e he heid ↦ ?_⟩
  cases hstep.fate hwell he with
  | kept d hd hid hprogress hdeleting htween =>
    obtain ⟨c, hc, hstays⟩ := h.origin d hd (hid ▸ heid)
    refine ⟨c, hc, hid.trans hstays.id_eq, hprogress.trans hstays.progress_eq, fun hfading ↦ ?_,
      fun hlive hasked ↦ ?_⟩
    · obtain ⟨hd', htween'⟩ := hstays.fading hfading
      exact ⟨hdeleting.trans hd', htween.trans htween'⟩
    · exact htween.trans (hstays.asked hlive (hdeleting.symm.trans hasked))
  | faded d hd hid hprogress hlive htween =>
    obtain ⟨c, hc, hstays⟩ := h.origin d hd (hid ▸ heid)
    refine ⟨c, hc, hid.trans hstays.id_eq, hprogress.trans hstays.progress_eq, fun hfading ↦ ?_,
      fun _ _ ↦ ?_⟩
    · rw [(hstays.fading hfading).1] at hlive
      cases hlive
    · rw [htween, h.duration]
  | made hid hprogress htween => exact absurd (h.ids heid) hid

theorem changes (h : g.WellFormed) (hsteps : Changes g g') : Stands g g' :=
  (hsteps.keep (P := fun g' ↦ g'.WellFormed ∧ Stands g g')
    (fun _ _ hg' hstep ↦ ⟨hg'.1.change hstep, hg'.2.change hg'.1 hstep⟩) ⟨h, .refl g⟩).2

omit [Scalar C] in
theorem standsAs (h : Stands g g') (hnodup : g.connectionIds.Nodup) (hc : c ∈ g.connections)
    (hd : d ∈ g'.connections) (hid : d.id = c.id) : StandsAs g g' c d := by
  obtain ⟨c', hc', hstays⟩ := h.origin d hd (hid ▸ mem_connectionIds hc)
  have hsame : c' = c := List.inj_on_of_nodup_map hnodup hc' hc (hstays.id_eq.symm.trans hid)
  exact hsame ▸ hstays

end Stands

/-! ### In a tick -/

omit [Scalar C] in
/-- What a connection is after a tick has become of the one of its name. -/
theorem after?_of_mem_ticked [Scalar R] [Precision C R] {now : R} (hnodup : g.connectionIds.Nodup)
    (hc : c ∈ g.connections) (hd : d ∈ (g.ticked now).connections) (hid : d.id = c.id) :
    c.after? g.animator now = some d := by
  obtain ⟨c', hc', hafter⟩ := mem_connections_ticked_iff.mp hd
  have hid' : d.id = c'.id := congrArg Prod.fst (Connection.after?_frame hafter).1
  have hsame : c' = c := List.inj_on_of_nodup_map hnodup hc' hc (hid'.symm.trans hid)
  exact hsame ▸ hafter

end LayerCanvas.Graph
