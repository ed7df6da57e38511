import LayerCanvas.Proofs.Graph.WellFormed

/-!
What the graph looks like to its users. No connection is a loop, and among the connections that
count there is at most one for each ordered pair of nodes. Nothing that counts is attached to a node
that waits, and what such a node waits for is a connection that fades.

Only the connections that count are unique: a pair that is connected, disconnected and connected
again in time has as many fading connections beside the live one as it was disconnected.
-/

set_option autoImplicit false
set_option relaxedAutoImplicit false

namespace LayerCanvas

variable {C R : Type}

/-- The ordered pair of nodes that a connection joins. -/
def Connection.ends (c : Connection C) : NodeId × NodeId := (c.source, c.target)

namespace Graph

/-- The shape of a graph that calls lead to. -/
structure Simple (g : Graph C R) : Prop where
  source_ne_target : ∀ c ∈ g.connections, c.source ≠ c.target
  live_nodup : (g.liveConnections.map Connection.ends).Nodup
  live_stays : ∀ c ∈ g.liveConnections, ∀ id ∈ g.leaving, c.touches id = false
  leaving_touched : ∀ id ∈ g.leaving, ∃ c ∈ g.connections, c.isDeleting = true ∧ c.touches id = true

/-- The fading connections that join an ordered pair of nodes. -/
def fadingBetween (g : Graph C R) (ends : NodeId × NodeId) : List (Connection C) :=
  g.connections.filter fun c ↦ c.isDeleting && decide (c.ends = ends)

namespace Simple

variable {g g' : Graph C R}

theorem empty (config : EditorConfig C R) (serial : Nat) : (empty config serial).Simple := by
  constructor <;> simp [Graph.empty, liveConnections]

/-- A step that makes no connection keeps the shape, if the nodes that wait still have something to
wait for. -/
theorem of_thins (h : g.Simple) (hthins : Thins g' g)
    (hstays : ∀ c ∈ g'.liveConnections, ∀ id ∈ g'.leaving, c.touches id = false)
    (htouched : ∀ id ∈ g'.leaving, g'.isTouched id = true) : g'.Simple := by
  have hends :
      (Connection.ends : Connection C → NodeId × NodeId) = Prod.snd ∘ Connection.link := rfl
  constructor
  · intro d hd
    obtain ⟨c, hc, hdc⟩ := hthins.exists_of_mem hd
    rw [hdc.source_eq, hdc.target_eq]
    exact h.source_ne_target c hc
  · have hsub := hthins.live_sublist.map Prod.snd
    rw [List.map_map, List.map_map, ← hends] at hsub
    exact h.live_nodup.sublist hsub
  · exact hstays
  · intro id hid
    obtain ⟨c, hc, htouch⟩ := isTouched_iff.mp (htouched id hid)
    refine ⟨c, hc, ?_, htouch⟩
    -- A live connection at a node that waits cannot be what it waits for.
    by_contra hlive
    have hlive' : c ∈ g'.liveConnections := mem_liveConnections.mpr ⟨hc, by simpa using hlive⟩
    rw [hstays c hlive' id hid] at htouch
    cases htouch

theorem live_stays_of_thins (h : g.Simple) (hthins : Thins g' g) {id : NodeId}
    (hid : id ∈ g.leaving) {d : Connection C} (hd : d ∈ g'.liveConnections) :
    d.touches id = false := by
  obtain ⟨hmem, hlive⟩ := mem_liveConnections.mp hd
  obtain ⟨c, hc, hdc⟩ := hthins.exists_of_mem hmem
  have hclive : c ∈ g.liveConnections := by
    refine mem_liveConnections.mpr ⟨hc, ?_⟩
    by_contra hfading
    rw [hdc.isDeleting (by simpa using hfading)] at hlive
    cases hlive
  rw [hdc.touches_eq]
  exact h.live_stays c hclive id hid

theorem isTouched_leaving (h : g.Simple) {id : NodeId} (hid : id ∈ g.leaving) :
    g.isTouched id = true := by
  obtain ⟨c, hc, -, htouch⟩ := h.leaving_touched id hid
  exact isTouched_iff.mpr ⟨c, hc, htouch⟩

/-! ### Changes -/

theorem connect [Scalar C] (h : g.Simple) {source target : NodeId}
    (hok : g.Connectable source target) (id : ConnectionId) (start stop : Point C)
    (animator : Animator R) (serial : Nat) :
    Simple
      { g with
        connections := g.connections ++ [.new id source target start stop], animator, serial } := by
  set made : Connection C := .new id source target start stop
  have hlive :
      (g.connections ++ [made]).filter Connection.isLive = g.liveConnections ++ [made] := by
    rw [List.filter_append]
    rfl
  -- What holds of the new connection is what was checked before it was made.
  constructor
  · intro c hc
    rcases List.mem_append.mp hc with hold | hnew
    · exact h.source_ne_target c hold
    · rw [List.mem_singleton.mp hnew]
      exact hok.ne
  · rw [liveConnections, hlive, List.map_append]
    refine h.live_nodup.append (List.nodup_singleton _) ?_
    rw [List.map_singleton, List.disjoint_singleton]
    intro hpair
    obtain ⟨c, hc, hends⟩ := List.mem_map.mp hpair
    obtain ⟨hmem, hdeleting⟩ := mem_liveConnections.mp hc
    have hsource : c.source = source := congrArg Prod.fst hends
    exact hok.unconnected c hmem hdeleting hsource (congrArg Prod.snd hends)
  · intro c hc other hother
    rw [liveConnections, hlive] at hc
    rcases List.mem_append.mp hc with hold | hnew
    · exact h.live_stays c hold other hother
    · rw [List.mem_singleton.mp hnew]
      have hsource : source ≠ other := fun heq ↦ hok.source_stays (heq ▸ hother)
      have htarget : target ≠ other := fun heq ↦ hok.target_stays (heq ▸ hother)
      simp [made, Connection.new, Connection.touches, hsource, htarget]
  · intro other hother
    obtain ⟨c, hc, hc'⟩ := h.leaving_touched other hother
    exact ⟨c, List.mem_append_left _ hc, hc'⟩

theorem await (h : g.Simple) (hwf : g.WellFormed) {id : NodeId} (htouched : g.isTouched id = true) :
    Simple { g.fadeAt id with leaving := g.leaving ++ [id] } := by
  have hthins : Thins (g.fadeAt id) g := .fadeAll g _
  have hlinks : (g.fadeAt id).links = g.links := g.links_fadeAll _
  refine h.of_thins hthins (fun d hd other hother ↦ ?_) fun other hother ↦ ?_
  · rcases List.mem_append.mp hother with hold | hnew
    · exact h.live_stays_of_thins hthins hold hd
    · rw [List.mem_singleton.mp hnew]
      obtain ⟨hmem, hlive⟩ := mem_liveConnections.mp hd
      change d ∈ (g.fadeAt id).connections at hmem
      rw [connections_fadeAt hwf.connectionIds_nodup] at hmem
      obtain ⟨c, -, rfl⟩ := List.mem_map.mp hmem
      split_ifs at hlive with htouch
      · rw [c.isDeleting_fade] at hlive
        cases hlive
      · rw [if_neg htouch]
        simpa using htouch
  · show (g.fadeAt id).isTouched other = true
    rw [isTouched_congr hlinks]
    rcases List.mem_append.mp hother with hold | hnew
    · exact h.isTouched_leaving hold
    · rw [List.mem_singleton.mp hnew]
      exact htouched

theorem of_alike (h : g.Simple) (hlike : Alike g g') : g'.Simple := by
  have hthins := hlike.thins
  refine h.of_thins hthins (fun d hd id hid ↦ ?_) fun id hid ↦ ?_
  · rw [hlike.leaving] at hid
    exact h.live_stays_of_thins hthins hid hd
  · rw [hlike.leaving] at hid
    rw [isTouched_congr hlike.links]
    exact h.isTouched_leaving hid

theorem change [Scalar C] (h : g.Simple) (hwf : g.WellFormed) (hstep : Change g g') :
    g'.Simple := by
  cases hstep with
  | alike hlike => exact h.of_alike hlike
  | place n serial hn =>
    exact h.of_thins (.of_eq rfl) h.live_stays fun id hid ↦ h.isTouched_leaving hid
  | connect id source target start stop serial hid hok => exact h.connect hok id start stop _ serial
  | fade id =>
    have hthins := Thins.deleteConnection g id
    have hleaving := (g.deleteConnection_frame id).2.2.1
    refine h.of_thins hthins (fun d hd other hother ↦ ?_) fun other hother ↦ ?_
    · rw [hleaving] at hother
      exact h.live_stays_of_thins hthins hother hd
    · rw [hleaving] at hother
      rw [isTouched_congr (g.links_deleteConnection id)]
      exact h.isTouched_leaving hother
  | remove id hmem hstays huntouched =>
    exact h.of_thins (.of_eq rfl) h.live_stays fun id hid ↦ h.isTouched_leaving hid
  | await id hmem hstays htouched => exact h.await hwf htouched

/-! ### Loads and ticks -/

theorem load [Scalar C] (g : Graph C R) {s : Snapshot C R} (hok : g.load s = .ok g') :
    g'.Simple := by
  have hrest : g'.AtRest := atRest_load hok
  -- Every loaded connection is live, and no two of them join the same pair.
  let Distinct (g : Graph C R) : Prop :=
    (∀ c ∈ g.connections, c.source ≠ c.target) ∧ (g.connections.map Connection.ends).Nodup
  have hdistinct : Distinct g' := by
    refine load_induction (P := Distinct) ⟨by simp [Graph.empty], by simp [Graph.empty]⟩
      (fun g g' n h hn ↦ ?_) (fun g g' c h hc ↦ ?_) hok
    · obtain ⟨-, -, rfl⟩ := insertNode_eq_ok_iff.mp hn
      exact h
    · obtain ⟨-, hloop, hunpaired, source, target, -, -, rfl⟩ := insertConnection_eq_ok_iff.mp hc
      constructor
      · intro d hd
        rcases List.mem_append.mp hd with hold | hnew
        · exact h.1 d hold
        · rw [List.mem_singleton.mp hnew]
          exact hloop
      · rw [List.map_append]
        refine h.2.append (List.nodup_singleton _) ?_
        rw [List.map_singleton, List.disjoint_singleton]
        intro hpair
        obtain ⟨d, hd, hends⟩ := List.mem_map.mp hpair
        exact hunpaired d hd (congrArg Prod.fst hends) (congrArg Prod.snd hends)
  refine ⟨hdistinct.1, hdistinct.2.sublist (List.filter_sublist.map _), ?_, ?_⟩
  · simp [hrest.leaving]
  · simp [hrest.leaving]

variable [Scalar R] [Precision C R]

theorem ticked (h : g.Simple) (now : R) : (g.ticked now).Simple := by
  have hthins := Thins.ticked g now
  refine h.of_thins hthins (fun d hd id hid ↦ ?_) fun id hid ↦ ?_
  · exact h.live_stays_of_thins hthins (List.mem_filter.mp hid).1 hd
  · obtain ⟨hleaving, hkept⟩ := List.mem_filter.mp hid
    by_contra huntouched
    have hreleased : id ∈ g.released now :=
      mem_released_iff.mpr ⟨hleaving, by simpa using huntouched⟩
    simp [hreleased] at hkept

theorem apply [Scalar C] (h : g.WellFormed ∧ g.Simple) (call : Call C R) :
    (g.apply call).WellFormed ∧ (g.apply call).Simple := by
  refine apply_invariant (P := fun g ↦ g.WellFormed ∧ g.Simple) (fun g g' h hstep ↦ ?_)
    (fun g now order h ↦ ?_) (fun g s g' _ hok ↦ ?_) g call h
  · exact ⟨h.1.change hstep, h.2.change h.1 hstep⟩
  · rw [(tickIn_eq h.1.tickable now order).1]
    exact ⟨h.1.ticked now, h.2.ticked now⟩
  · exact ⟨.load g hok, .load g hok⟩

end Simple

/-! ### Connecting the same pair again -/

section

variable [Scalar C] [Scalar R] [Precision C R] {g : Graph C R} {source target : NodeId}

theorem apply_addConnection (hok : g.Connectable source target) (start stop : Point C) :
    ∃ id, id ∉ g.connectionIds ∧
      (g.apply (.addConnection source target start stop)).connections =
        g.connections ++ [.new id source target start stop] ∧
      (g.apply (.addConnection source target start stop)).nodes = g.nodes ∧
      (g.apply (.addConnection source target start stop)).leaving = g.leaving := by
  have hmade : g.addConnection? source target start stop = some _ :=
    addConnection?_eq_some_iff.mpr ⟨hok, rfl⟩
  refine ⟨(ConnectionId.mint g.connectionIds g.serial).1, ConnectionId.mint_notMem _ _, ?_⟩
  rw [apply, hmade]
  exact ⟨rfl, rfl, rfl⟩

/-- A pair that can be connected can be connected and disconnected, and can then be connected again.
-/
theorem exists_reconnectable (h : g.WellFormed) (hok : g.Connectable source target) :
    ∃ calls c, (g.applyAll calls).connections = g.connections ++ [c] ∧ c.isDeleting = true ∧
      c.ends = (source, target) ∧ (g.applyAll calls).Connectable source target := by
  let origin : Point C := ⟨0, 0⟩
  obtain ⟨id, hnew, hmade, hnodes, hleaving⟩ := apply_addConnection hok origin origin
  set g' := g.apply (.addConnection source target origin origin) with hg'
  have hwf : g'.WellFormed := h.apply _
  obtain ⟨-, hnodes', hleaving', -⟩ := g'.deleteConnection_frame id
  have hfaded : (g'.deleteConnection id).connections =
      g.connections ++ [(Connection.new id source target origin origin).fade] := by
    rw [connections_deleteConnection hwf.connectionIds_nodup, hmade, List.map_append]
    congr 1
    · conv_rhs => rw [← List.map_id g.connections]
      refine List.map_congr_left fun c hc ↦ if_neg fun hid : c.id = id ↦ ?_
      exact hnew (hid ▸ mem_connectionIds hc)
    · rw [List.map_singleton, if_pos (Connection.id_new ..)]
  refine ⟨[.addConnection source target origin origin, .deleteConnection id], _, hfaded,
    Connection.isDeleting_fade _, ?_, ?_⟩
  · exact congrArg Prod.snd (Connection.link_fade _)
  · show (g'.deleteConnection id).Connectable source target
    have hnodeIds : (g'.deleteConnection id).nodeIds = g.nodeIds := by
      rw [nodeIds, hnodes', hnodes, nodeIds]
    -- The new connection is fading, and nothing else has changed.
    constructor
    · exact hok.ne
    · rw [hnodeIds]
      exact hok.source_mem
    · rw [hnodeIds]
      exact hok.target_mem
    · rw [hleaving', hleaving]
      exact hok.source_stays
    · rw [hleaving', hleaving]
      exact hok.target_stays
    · intro c hc hlive
      rw [hfaded] at hc
      rcases List.mem_append.mp hc with hold | hlast
      · exact hok.unconnected c hold hlive
      · rw [List.mem_singleton.mp hlast, Connection.isDeleting_fade] at hlive
        cases hlive

/-- However often a pair has been connected before, its fading connections can be made more. -/
theorem exists_fading (h : g.WellFormed) (hok : g.Connectable source target) (n : Nat) :
    ∃ calls, (g.applyAll calls).Connectable source target ∧
      ((g.applyAll calls).fadingBetween (source, target)).length =
        (g.fadingBetween (source, target)).length + n := by
  induction n with
  | zero => exact ⟨[], hok, rfl⟩
  | succ n ih =>
    obtain ⟨calls, hok', hlength⟩ := ih
    have hwf : (g.applyAll calls).WellFormed := h.applyAll calls
    obtain ⟨more, c, hconnections, hdeleting, hends, hok''⟩ := exists_reconnectable hwf hok'
    refine ⟨calls ++ more, ?_⟩
    rw [applyAll_append]
    refine ⟨hok'', ?_⟩
    have hfading :
        ([c].filter fun d ↦ d.isDeleting && decide (d.ends = (source, target))) = [c] := by
      simp [hdeleting, hends]
    rw [fadingBetween, hconnections, List.filter_append, hfading, List.length_append]
    show ((g.applyAll calls).fadingBetween (source, target)).length + 1 = _
    rw [hlength, Nat.add_assoc]

/-- Two nodes that were just made can be connected, and nothing joins them. -/
theorem exists_connectable (h : g.WellFormed) :
    ∃ calls source target, (g.applyAll calls).Connectable source target ∧
      (g.applyAll calls).fadingBetween (source, target) = [] := by
  let layer : Layer R := ⟨"", "", "", "", .empty, "", ""⟩
  let origin : Point C := ⟨0, 0⟩
  obtain ⟨first, serial, hfirst, hplace⟩ := g.addNode_fst layer origin
  set g₁ := g.apply (.addNode layer origin) with hg₁
  obtain ⟨second, serial', hsecond, hplace'⟩ := g₁.addNode_fst layer origin
  have hg₂ : g.applyAll [.addNode layer origin, .addNode layer origin] =
      { g with nodes := g.nodes ++ [first] ++ [second], serial := serial' } := by
    rw [applyAll_cons, applyAll_cons, applyAll_nil, ← hg₁, apply, hplace', hg₁, apply, hplace]
  have hids : g₁.nodeIds = g.nodeIds ++ [first.id] := by
    rw [hg₁, apply, hplace, nodeIds, List.map_append]
    rfl
  rw [hids, List.mem_append, not_or] at hsecond
  -- A name that is new belongs to no node, so no connection begins there.
  have hunjoined : ∀ c ∈ g.connections, c.source ≠ first.id := fun c hc heq ↦
    hfirst (heq ▸ h.source_mem hc)
  refine ⟨[.addNode layer origin, .addNode layer origin], first.id, second.id, ?_, ?_⟩
  · rw [hg₂]
    constructor
    · exact fun heq ↦ hsecond.2 (heq ▸ List.mem_singleton_self _)
    · simp [nodeIds]
    · simp [nodeIds]
    · exact fun hid ↦ hfirst (h.leaving_mem _ hid)
    · exact fun hid ↦ hsecond.1 (h.leaving_mem _ hid)
    · exact fun c hc _ hsource ↦ absurd hsource (hunjoined c hc)
  · rw [hg₂, fadingBetween, List.filter_eq_nil_iff]
    intro c hc
    simp [Connection.ends, hunjoined c hc]

end

variable [Scalar C] [Scalar R] [Precision C R]

theorem simple_run (config : EditorConfig C R) (serial : Nat) (calls : List (Call C R)) :
    (run config serial calls).Simple := by
  refine (run_induction (P := fun g ↦ g.WellFormed ∧ g.Simple) ?_ (fun _ call h ↦ ?_) calls).2
  · exact ⟨.empty config serial, .empty config serial⟩
  · exact Simple.apply h call

/-- Every run leads to a graph of this shape, and from it any number of fading connections can come
to stand beside a live one. -/
theorem simple_beside_any_number_fading (config : EditorConfig C R) (serial : Nat)
    (calls : List (Call C R)) :
    (run config serial calls).Simple ∧
      ∀ n, ∃ more, ∃ c ∈ (run config serial (calls ++ more)).liveConnections,
        ((run config serial (calls ++ more)).fadingBetween c.ends).length = n := by
  have h : (run config serial calls).WellFormed := wellFormed_run config serial calls
  refine ⟨simple_run config serial calls, fun n ↦ ?_⟩
  obtain ⟨first, source, target, hok, hnone⟩ := exists_connectable h
  obtain ⟨second, hok', hlength⟩ := exists_fading (h.applyAll first) hok n
  let origin : Point C := ⟨0, 0⟩
  obtain ⟨id, -, hmade, -, -⟩ := apply_addConnection hok' origin origin
  refine ⟨first ++ second ++ [.addConnection source target origin origin],
    .new id source target origin origin, ?_, ?_⟩
  · rw [run_append, applyAll_append, applyAll_append, applyAll_cons, applyAll_nil,
      mem_liveConnections, hmade]
    exact ⟨List.mem_append_right _ (List.mem_singleton_self _), rfl⟩
  · rw [run_append, applyAll_append, applyAll_append, applyAll_cons, applyAll_nil, fadingBetween,
      hmade, List.filter_append]
    rw [hnone] at hlength
    simpa [fadingBetween, Connection.new, Connection.ends] using hlength

end Graph

end LayerCanvas
