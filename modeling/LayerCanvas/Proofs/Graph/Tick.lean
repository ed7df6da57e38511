import LayerCanvas.Proofs.Graph.Run
import LayerCanvas.Proofs.Graph.Thin

/-!
What a tick does. Every sample is brought to the connection it belongs to, and a connection has at
most one, so each connection and each tween has a fate of its own, whatever the order of the
samples: a connection without a tween stays as it is, and one with a tween takes its progress or
goes. The nodes that go are the leaving ones at which nothing is left.
-/

set_option autoImplicit false
set_option relaxedAutoImplicit false

namespace LayerCanvas

variable {C R : Type}

/-! ### One connection -/

/-- Whether a sample takes its connection away. -/
def TweenSample.purges (s : TweenSample C) : Bool := s.kind = .deletion && s.finished

namespace Connection

/-- A connection after one sample, which may belong to another one. -/
def absorb? (c : Connection C) (s : TweenSample C) : Option (Connection C) :=
  if s.id = c.id then
    match s.kind, s.finished with
    | .creation, finished => some { c with progress := s.progress, isAnimating := !finished }
    | .deletion, false => some { c with progress := s.progress }
    | .deletion, true => none
  else some c

/-- A connection after several samples. -/
def absorbAll? (c : Connection C) (samples : List (TweenSample C)) : Option (Connection C) :=
  samples.foldlM absorb? c

theorem absorb?_of_ne {c : Connection C} {s : TweenSample C} (h : s.id ≠ c.id) :
    c.absorb? s = some c := if_neg h

theorem absorb?_eq_none_iff {c : Connection C} {s : TweenSample C} :
    c.absorb? s = none ↔ s.id = c.id ∧ s.purges = true := by
  obtain ⟨id, kind, progress, finished⟩ := s
  unfold absorb? TweenSample.purges
  cases kind <;> cases finished <;> by_cases h : id = c.id <;> simp [h]

/-- A sample changes neither what a connection joins nor whether it is live. -/
theorem absorb?_frame {c d : Connection C} {s : TweenSample C} (h : c.absorb? s = some d) :
    d.link = c.link ∧ d.isDeleting = c.isDeleting ∧ d.start = c.start ∧ d.stop = c.stop := by
  unfold absorb? at h
  split at h
  · split at h <;> cases h <;> exact ⟨rfl, rfl, rfl, rfl⟩
  · cases h
    exact ⟨rfl, rfl, rfl, rfl⟩

theorem absorbAll?_of_forall_ne {c : Connection C} {samples : List (TweenSample C)}
    (h : ∀ s ∈ samples, s.id ≠ c.id) : c.absorbAll? samples = some c := by
  induction samples with
  | nil => rfl
  | cons s rest ih =>
    have hs : c.absorb? s = some c := absorb?_of_ne (h s List.mem_cons_self)
    have hrest := ih fun other hother ↦ h other (List.mem_cons_of_mem _ hother)
    simpa [absorbAll?, hs] using hrest

/-- Of samples with different names only its own one matters to a connection. -/
theorem absorbAll?_of_mem {c : Connection C} {samples : List (TweenSample C)} {s : TweenSample C}
    (h : (samples.map TweenSample.id).Nodup) (hs : s ∈ samples) (hid : s.id = c.id) :
    c.absorbAll? samples = c.absorb? s := by
  induction samples with
  | nil => cases hs
  | cons first rest ih =>
    obtain ⟨hfirst, hrest⟩ := List.nodup_cons.mp h
    rcases List.mem_cons.mp hs with rfl | hs
    · have hothers : ∀ other ∈ rest, other.id ≠ c.id := fun other hother heq ↦
        hfirst (List.mem_map.mpr ⟨other, hother, heq.trans hid.symm⟩)
      cases hd : c.absorb? s with
      | none => simp [absorbAll?, hd]
      | some d =>
        have hdid : d.id = c.id := congrArg Prod.fst (absorb?_frame hd).1
        have hstop := absorbAll?_of_forall_ne (c := d) (hdid ▸ hothers)
        simpa [absorbAll?, hd] using hstop
    · have hne : first.id ≠ c.id := fun heq ↦
        hfirst (List.mem_map.mpr ⟨s, hs, hid.trans heq.symm⟩)
      have hfirst' : c.absorb? first = some c := absorb?_of_ne hne
      simpa [absorbAll?, hfirst'] using ih hrest hs

variable [Scalar R] [Precision C R]

/-- A connection after a tick. -/
def after? (c : Connection C) (a : Animator R) (now : R) : Option (Connection C) :=
  match a.find? c.id with
  | none => some c
  | some t => c.absorb? ((t.latch now).sample c.id now)

theorem absorbAll?_samples {a : Animator R} (h : a.ids.Nodup) (c : Connection C) (now : R)
    (order : SampleOrder C) : c.absorbAll? (order.arrange (a.samples now)) = c.after? a now := by
  have hperm := order.perm (a.samples now)
  have hnodup : ((order.arrange (a.samples now)).map TweenSample.id).Nodup := by
    rw [(hperm.map TweenSample.id).nodup_iff, a.ids_samples]
    exact h
  unfold after?
  cases hfind : a.find? c.id with
  | none =>
    refine absorbAll?_of_forall_ne fun s hs hid ↦ ?_
    obtain ⟨t, ht, -⟩ := (Animator.mem_samples_iff h).mp (hperm.mem_iff.mp hs)
    rw [hid, hfind] at ht
    cases ht
  | some t =>
    refine absorbAll?_of_mem hnodup (hperm.mem_iff.mpr ?_) rfl
    exact (Animator.mem_samples_iff h).mpr ⟨t, hfind, rfl⟩

theorem after?_frame {c d : Connection C} {a : Animator R} {now : R} (h : c.after? a now = some d) :
    d.link = c.link ∧ d.isDeleting = c.isDeleting ∧ d.start = c.start ∧ d.stop = c.stop := by
  unfold after? at h
  split at h
  · cases h
    exact ⟨rfl, rfl, rfl, rfl⟩
  · exact absorb?_frame h

/-- A tick changes nothing that a document tells. -/
theorem outline_after? {c d : Connection C} {a : Animator R} {now : R}
    (h : c.after? a now = some d) : d.outline = c.outline := by
  obtain ⟨hlink, -, hstart, hstop⟩ := after?_frame h
  rw [outline, hlink, hstart, hstop, outline]

end Connection

/-! ### The whole graph -/

namespace Graph

theorem absorb_frame (g : Graph C R) (s : TweenSample C) :
    (g.absorb s).config = g.config ∧ (g.absorb s).nodes = g.nodes ∧
      (g.absorb s).leaving = g.leaving ∧ (g.absorb s).serial = g.serial := by
  unfold absorb
  split
  · exact ⟨rfl, rfl, rfl, rfl⟩
  · split <;> exact ⟨rfl, rfl, rfl, rfl⟩

theorem connections_absorb (g : Graph C R) (s : TweenSample C) :
    (g.absorb s).connections = g.connections.filterMap fun c ↦ c.absorb? s := by
  have hmap (f : Connection C → Connection C)
      (hf : ∀ c : Connection C, c.absorb? s = some (if c.id = s.id then f c else c)) :
      (g.updateConnection s.id f).connections = g.connections.filterMap fun c ↦ c.absorb? s := by
    simp only [hf, updateConnection, ← Function.comp_def some, List.filterMap_eq_map]
  unfold absorb
  split_ifs with hgone
  · -- No connection has the name of the sample.
    rw [Bool.not_eq_true', ← Bool.not_eq_true, containsConnection_iff] at hgone
    symm
    calc g.connections.filterMap (fun c ↦ c.absorb? s)
        = g.connections.filterMap some := List.filterMap_congr fun c hc ↦
          Connection.absorb?_of_ne fun hid ↦ hgone (hid ▸ mem_connectionIds hc)
      _ = g.connections := List.filterMap_some
  · cases hkind : s.kind with
    | creation =>
      refine hmap _ fun c ↦ ?_
      by_cases hid : s.id = c.id
      · simp [Connection.absorb?, hkind, hid]
      · simp [Connection.absorb?, hid, Ne.symm hid]
    | deletion =>
      cases hfinished : s.finished with
      | false =>
        refine hmap _ fun c ↦ ?_
        by_cases hid : s.id = c.id
        · simp [Connection.absorb?, hkind, hfinished, hid]
        · simp [Connection.absorb?, hid, Ne.symm hid]
      | true =>
        simp only [dropConnection, ← List.filterMap_eq_filter]
        refine List.filterMap_congr fun c _ ↦ ?_
        by_cases hid : s.id = c.id
        · simp [Connection.absorb?, Option.guard, hkind, hfinished, hid]
        · simp [Connection.absorb?, Option.guard, hid, Ne.symm hid]

/-- A sample ends the tween of a connection that it takes away or that is not there. -/
theorem animator_absorb (g : Graph C R) (s : TweenSample C) :
    (g.absorb s).animator =
      g.animator.keep fun id ↦ !(id == s.id && (s.purges || !g.containsConnection id)) := by
  have hcancel (h : s.purges = true ∨ g.containsConnection s.id = false) :
      g.animator.cancel s.id =
        g.animator.keep fun id ↦ !(id == s.id && (s.purges || !g.containsConnection id)) := by
    rw [Animator.cancel_eq_keep]
    refine Animator.keep_congr fun id _ ↦ ?_
    by_cases hid : id = s.id
    · rcases h with h | h <;> simp [hid, h]
    · have hne : (id == s.id) = false := beq_eq_false_iff_ne.mpr hid
      simp [bne, hne]
  have hsame (h : s.purges = false) (hmem : g.containsConnection s.id = true) :
      g.animator =
        g.animator.keep fun id ↦ !(id == s.id && (s.purges || !g.containsConnection id)) := by
    conv_lhs => rw [← g.animator.keep_true]
    refine Animator.keep_congr fun id _ ↦ ?_
    by_cases hid : id = s.id <;> simp [hid, h, hmem]
  unfold absorb
  split_ifs with hgone
  · exact hcancel (Or.inr (by simpa using hgone))
  · have hmem : g.containsConnection s.id = true := by simpa using hgone
    cases hkind : s.kind with
    | creation => exact hsame (by simp [TweenSample.purges, hkind]) hmem
    | deletion =>
      cases hfinished : s.finished with
      | false => exact hsame (by simp [TweenSample.purges, hfinished]) hmem
      | true => exact hcancel (Or.inl (by simp [TweenSample.purges, hkind, hfinished]))

theorem absorbAll_cons (g : Graph C R) (s : TweenSample C) (rest : List (TweenSample C)) :
    g.absorbAll (s :: rest) = (g.absorb s).absorbAll rest := rfl

theorem absorbAll_frame (g : Graph C R) (samples : List (TweenSample C)) :
    (g.absorbAll samples).config = g.config ∧ (g.absorbAll samples).nodes = g.nodes ∧
      (g.absorbAll samples).leaving = g.leaving ∧ (g.absorbAll samples).serial = g.serial := by
  induction samples generalizing g with
  | nil => exact ⟨rfl, rfl, rfl, rfl⟩
  | cons s rest ih =>
    obtain ⟨hconfig, hnodes, hleaving, hserial⟩ := g.absorb_frame s
    rw [absorbAll_cons, ← hconfig, ← hnodes, ← hleaving, ← hserial]
    exact ih _

theorem connections_absorbAll (g : Graph C R) (samples : List (TweenSample C)) :
    (g.absorbAll samples).connections = g.connections.filterMap fun c ↦ c.absorbAll? samples := by
  induction samples generalizing g with
  | nil => exact List.filterMap_some.symm
  | cons s rest ih =>
    rw [absorbAll_cons, ih, connections_absorb, List.filterMap_filterMap]
    rfl

theorem containsConnection_absorb (g : Graph C R) (s : TweenSample C) (id : ConnectionId) :
    (g.absorb s).containsConnection id =
      (g.containsConnection id && !(id == s.id && s.purges)) := by
  rw [Bool.eq_iff_iff]
  simp only [containsConnection, connections_absorb, List.any_eq_true, List.mem_filterMap,
    Bool.and_eq_true, beq_iff_eq, Bool.not_eq_true', Bool.and_eq_false_iff]
  constructor
  · rintro ⟨d, ⟨c, hc, hcd⟩, hid⟩
    have hdid : d.id = c.id := congrArg Prod.fst (Connection.absorb?_frame hcd).1
    refine ⟨⟨c, hc, hdid ▸ hid⟩, ?_⟩
    by_contra hpurged
    have hnone : c.absorb? s = none := Connection.absorb?_eq_none_iff.mpr (by grind)
    rw [hnone] at hcd
    cases hcd
  · rintro ⟨⟨c, hc, hid⟩, hkept⟩
    cases hcd : c.absorb? s with
    | none =>
      have hpurged := Connection.absorb?_eq_none_iff.mp hcd
      grind
    | some d =>
      have hdid : d.id = c.id := congrArg Prod.fst (Connection.absorb?_frame hcd).1
      exact ⟨d, ⟨c, hc, hcd⟩, hdid ▸ hid⟩

theorem animator_absorbAll (g : Graph C R) (samples : List (TweenSample C)) :
    (g.absorbAll samples).animator =
      g.animator.keep fun id ↦
        !samples.any fun s ↦ id == s.id && (s.purges || !g.containsConnection id) := by
  induction samples generalizing g with
  | nil => exact g.animator.keep_true.symm
  | cons s rest ih =>
    rw [absorbAll_cons, ih, animator_absorb, Animator.keep_keep]
    refine Animator.keep_congr fun id _ ↦ ?_
    rw [List.any_cons, Bool.not_or, containsConnection_absorb]
    -- A connection that the first sample takes away has lost its tween already.
    cases hfirst : id == s.id && (s.purges || !g.containsConnection id) with
    | true => rfl
    | false =>
      have hkept : (id == s.id && s.purges) = false := by
        cases hid : id == s.id <;> simp_all
      simp [hkept]

/-! ### The nodes that go -/

theorem isTouched_dropNode {g : Graph C R} {id : NodeId} (h : g.isTouched id = false)
    (other : NodeId) : (g.dropNode id).isTouched other = g.isTouched other := by
  rw [dropNode_of_untouched h]
  rfl

theorem foldl_dropNode {g : Graph C R} {ids : List NodeId}
    (h : ∀ id ∈ ids, g.isTouched id = false) :
    ids.foldl dropNode g =
      { g with
        nodes := g.nodes.filter fun n ↦ !ids.contains n.id
        leaving := g.leaving.filter fun n ↦ !ids.contains n } := by
  induction ids generalizing g with
  | nil => simp
  | cons id rest ih =>
    have hid : g.isTouched id = false := h id List.mem_cons_self
    have hrest : ∀ other ∈ rest, (g.dropNode id).isTouched other = false := fun other hother ↦ by
      rw [isTouched_dropNode hid]
      exact h other (List.mem_cons_of_mem _ hother)
    rw [List.foldl_cons, ih hrest, dropNode_of_untouched hid]
    simp only [List.filter_filter, List.contains_cons, Bool.not_or, bne, Bool.and_comm]

/-! ### The tick as a whole -/

variable [Scalar R] [Precision C R]

/-- The connections after a tick. -/
def tickedConnections (g : Graph C R) (now : R) : List (Connection C) :=
  g.connections.filterMap fun c ↦ c.after? g.animator now

/-- The nodes that go in a tick: the leaving ones that nothing touches after it. -/
def released (g : Graph C R) (now : R) : List NodeId :=
  g.leaving.filter fun id ↦ !(g.tickedConnections now).any fun c ↦ c.touches id

/-- The graph after a tick. -/
def ticked (g : Graph C R) (now : R) : Graph C R :=
  { g with
    connections := g.tickedConnections now
    nodes := g.nodes.filter fun n ↦ !(g.released now).contains n.id
    leaving := g.leaving.filter fun id ↦ !(g.released now).contains id
    animator := (g.animator.advance now).keep fun id ↦
      !(g.animator.find? id).any fun t ↦ ((t.latch now).sample (C := C) id now).purges }

theorem animator_ticked (g : Graph C R) (now : R) :
    (g.ticked now).animator = (g.animator.advance now).keep fun id ↦
      !(g.animator.find? id).any fun t ↦ ((t.latch now).sample (C := C) id now).purges := rfl

/-- A tween goes on after a tick if its time is not over and its connection stays. -/
theorem find?_ticked {g : Graph C R} (h : g.animator.ids.Nodup) (now : R) (id : ConnectionId) :
    (g.ticked now).animator.find? id =
      ((g.animator.find? id).map fun t ↦ t.latch now).filter fun t ↦
        t.isRunning now && !(t.sample (C := C) id now).purges := by
  rw [animator_ticked, Animator.find?_keep, Animator.find?_advance h]
  cases g.animator.find? id with
  | none => simp
  | some t =>
    rw [Option.map_some, Option.filter_some, Option.filter_some]
    cases hpurges : ((t.latch now).sample (C := C) id now).purges <;> simp [hpurges]

theorem mem_connections_ticked_iff {g : Graph C R} {now : R} {d : Connection C} :
    d ∈ (g.ticked now).connections ↔ ∃ c ∈ g.connections, c.after? g.animator now = some d :=
  List.mem_filterMap

theorem Thins.ticked (g : Graph C R) (now : R) : Thins (g.ticked now) g := by
  refine .of_filterMap (fun c d hafter ↦ ?_) rfl
  obtain ⟨hlink, hdeleting, -⟩ := Connection.after?_frame hafter
  exact ⟨hlink, fun h ↦ hdeleting.trans h⟩

theorem mem_released_iff {g : Graph C R} {now : R} {id : NodeId} :
    id ∈ g.released now ↔ id ∈ g.leaving ∧ (g.ticked now).isTouched id = false := by
  simp [released, ticked, isTouched]

/-- What a tick needs of a graph so that each connection and each tween has a fate of its own. -/
structure Tickable (g : Graph C R) : Prop where
  tweens_nodup : g.animator.ids.Nodup
  tweens_mem : ∀ id ∈ g.animator.ids, id ∈ g.connectionIds
  leaving_mem : ∀ id ∈ g.leaving, id ∈ g.nodeIds

/-- A tween that goes on after a tick belongs to a connection that does. -/
theorem tweens_mem_ticked {g : Graph C R} (h : g.Tickable) {now : R} {id : ConnectionId}
    (hid : id ∈ (g.ticked now).animator.ids) : id ∈ (g.ticked now).connectionIds := by
  rw [animator_ticked, Animator.ids_keep, List.mem_filter] at hid
  obtain ⟨hrunning, hkept⟩ := hid
  have hmem := h.tweens_mem id ((g.animator.ids_advance_sublist now).subset hrunning)
  obtain ⟨c, hc, rfl⟩ := List.mem_map.mp hmem
  cases hafter : c.after? g.animator now with
  | none =>
    unfold Connection.after? at hafter
    cases ht : g.animator.find? c.id with
    | none => simp [ht] at hafter
    | some t =>
      rw [ht] at hafter
      simp [ht, (Connection.absorb?_eq_none_iff.mp hafter).2] at hkept
  | some d =>
    have hdid : d.id = c.id := congrArg Prod.fst (Connection.after?_frame hafter).1
    rw [← hdid]
    exact mem_connectionIds (mem_connections_ticked_iff.mpr ⟨c, hc, hafter⟩)

/-- The samples of a tick are those of the tweens, each under its own name. -/
theorem mem_arranged_iff {g : Graph C R} (h : g.Tickable) {now : R} {order : SampleOrder C}
    {s : TweenSample C} :
    s ∈ order.arrange (g.animator.samples now) ↔
      ∃ t, g.animator.find? s.id = some t ∧ s = (t.latch now).sample s.id now := by
  rw [(order.perm _).mem_iff]
  exact Animator.mem_samples_iff h.tweens_nodup

theorem mem_purged_iff {g : Graph C R} (h : g.Tickable) {now : R} {order : SampleOrder C}
    {id : ConnectionId} :
    id ∈ (g.tickIn now order).2.purged ↔
      ∃ c ∈ g.connections, c.id = id ∧ c.after? g.animator now = none := by
  have hpurged : id ∈ (g.tickIn now order).2.purged ↔
      ∃ s ∈ order.arrange (g.animator.samples now),
        s.purges = true ∧ s.id ∈ g.connectionIds ∧ s.id = id := by
    simp [tickIn, tickWith, purges, TweenSample.purges, ← containsConnection_iff, and_assoc]
  rw [hpurged]
  constructor
  · rintro ⟨s, hs, hpurges, hmem, rfl⟩
    obtain ⟨t, ht, hst⟩ := (mem_arranged_iff h).mp hs
    obtain ⟨c, hc, hcid⟩ := List.mem_map.mp hmem
    refine ⟨c, hc, hcid, ?_⟩
    simp only [Connection.after?, hcid, ht, ← hst]
    exact Connection.absorb?_eq_none_iff.mpr ⟨hcid.symm, hpurges⟩
  · rintro ⟨c, hc, rfl, hgone⟩
    unfold Connection.after? at hgone
    cases ht : g.animator.find? c.id with
    | none => simp [ht] at hgone
    | some t =>
      rw [ht] at hgone
      refine ⟨(t.latch now).sample c.id now, (mem_arranged_iff h).mpr ⟨t, ht, rfl⟩, ?_, ?_, rfl⟩
      · exact (Connection.absorb?_eq_none_iff.mp hgone).2
      · exact mem_connectionIds hc

/-- The graph of a tick after its samples and before any node goes. -/
def absorbed (g : Graph C R) (now : R) (order : SampleOrder C) : Graph C R :=
  { g with animator := g.animator.advance now }.absorbAll (order.arrange (g.animator.samples now))

theorem connections_absorbed {g : Graph C R} (h : g.Tickable) (now : R) (order : SampleOrder C) :
    (g.absorbed now order).connections = g.tickedConnections now := by
  rw [absorbed, connections_absorbAll]
  exact List.filterMap_congr fun c _ ↦ Connection.absorbAll?_samples h.tweens_nodup c now order

theorem animator_absorbed {g : Graph C R} (h : g.Tickable) (now : R) (order : SampleOrder C) :
    (g.absorbed now order).animator = (g.ticked now).animator := by
  rw [absorbed, animator_absorbAll, animator_ticked]
  refine Animator.keep_congr fun id hid ↦ congrArg (!·) ?_
  have hmem : g.containsConnection id = true :=
    containsConnection_iff.mpr (h.tweens_mem id ((g.animator.ids_advance_sublist now).subset hid))
  have hmem' : { g with animator := g.animator.advance now }.containsConnection id = true := hmem
  rw [Bool.eq_iff_iff, List.any_eq_true, Option.any_eq_true]
  simp only [hmem', Bool.not_true, Bool.or_false, Bool.and_eq_true, beq_iff_eq]
  constructor
  · rintro ⟨s, hs, rfl, hpurges⟩
    obtain ⟨t, ht, hst⟩ := (mem_arranged_iff h).mp hs
    exact ⟨t, ht, hst ▸ hpurges⟩
  · rintro ⟨t, ht, hpurges⟩
    exact ⟨_, (mem_arranged_iff h).mpr ⟨t, ht, rfl⟩, rfl, hpurges⟩

theorem ready_absorbed {g : Graph C R} (h : g.Tickable) (now : R) (order : SampleOrder C) :
    (g.absorbed now order).ready = g.released now := by
  obtain ⟨-, hnodes, hleaving, -⟩ := absorbAll_frame { g with animator := g.animator.advance now }
    (order.arrange (g.animator.samples now))
  unfold ready released
  rw [absorbed, hleaving]
  refine List.filter_congr fun id hid ↦ ?_
  have hcontains : (g.absorbed now order).contains id = true := by
    rw [contains_iff, nodeIds, absorbed, hnodes]
    exact h.leaving_mem id hid
  have htouched : (g.absorbed now order).isTouched id =
      (g.tickedConnections now).any fun c ↦ c.touches id := by
    rw [isTouched, connections_absorbed h]
  rw [← absorbed, hcontains, htouched]
  simp

/-- A tick has one result, whatever the order of the samples. -/
theorem tickIn_eq {g : Graph C R} (h : g.Tickable) (now : R) (order : SampleOrder C) :
    (g.tickIn now order).1 = g.ticked now ∧ (g.tickIn now order).2.removed = g.released now := by
  refine ⟨?_, ready_absorbed h now order⟩
  obtain ⟨hconfig, hnodes, hleaving, hserial⟩ :=
    absorbAll_frame { g with animator := g.animator.advance now }
      (order.arrange (g.animator.samples now))
  have huntouched : ∀ id ∈ (g.absorbed now order).ready,
      (g.absorbed now order).isTouched id = false := fun id hid ↦ by
    rw [ready_absorbed h] at hid
    rw [isTouched, connections_absorbed h]
    simpa using (List.mem_filter.mp hid).2
  have hdropped : (g.tickIn now order).1 =
      (g.absorbed now order).ready.foldl dropNode (g.absorbed now order) := rfl
  rw [hdropped, foldl_dropNode huntouched, ready_absorbed h, connections_absorbed h,
    animator_absorbed h]
  simp only [absorbed, hconfig, hnodes, hleaving, hserial, ticked]

end Graph

end LayerCanvas
