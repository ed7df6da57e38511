import LayerCanvas.Proofs.Fault
import LayerCanvas.Proofs.Graph.Simple

/-!
What a load accepts, what it makes of it, and what it reports. A snapshot is sound if names are
given once, nodes can be placed, and its connections would make a graph without loops and without
two connections for one ordered pair of nodes. A sound snapshot is loaded as it is, apart from what
it says of the ends and of the animations of connections, which does not matter. Any other one is
refused with the first fault in it, nodes before connections, and nothing changes.
-/

set_option autoImplicit false
set_option relaxedAutoImplicit false

namespace LayerCanvas

variable {C R : Type} [Scalar C]

/-! ### Faults -/

/-- The fault of a node, given the nodes before it: its name is taken before its geometry counts. -/
def Node.fault? (before : List (Node C R)) (n : Node C R) : Option GraphError :=
  if n.id ∈ before.map Node.id then some (.duplicateNode n.id)
  else if n.hasValidGeometry then none
  else some (.invalidGeometry n.id)

omit [Scalar C] in
/-- The fault of a connection between some nodes, given the connections before it. -/
def Connection.fault? (nodes : List (Node C R)) (before : List (Connection C)) (c : Connection C) :
    Option GraphError :=
  if c.id ∈ before.map Connection.id then some (.duplicateConnectionId c.id)
  else if c.source = c.target then some (.selfLoop c.id)
  else if c.source ∉ nodes.map Node.id then some (.danglingConnection c.id c.source)
  else if c.target ∉ nodes.map Node.id then some (.danglingConnection c.id c.target)
  else if c.ends ∈ before.map Connection.ends then some (.duplicateConnection c.source c.target)
  else none

namespace Snapshot

/-- What a snapshot must be like to be loaded. -/
structure Sound (s : Snapshot C R) : Prop where
  nodeIds_nodup : (s.nodes.map Node.id).Nodup
  valid : ∀ n ∈ s.nodes, n.hasValidGeometry = true
  connectionIds_nodup : (s.connections.map Connection.id).Nodup
  source_ne_target : ∀ c ∈ s.connections, c.source ≠ c.target
  source_mem : ∀ c ∈ s.connections, c.source ∈ s.nodes.map Node.id
  target_mem : ∀ c ∈ s.connections, c.target ∈ s.nodes.map Node.id
  ends_nodup : (s.connections.map Connection.ends).Nodup

/-- The first fault of a snapshot: that of the first node that has one, or, when no node has one,
that of the first connection that has one. -/
def FirstFault (s : Snapshot C R) (fault : GraphError) : Prop :=
  LayerCanvas.FirstFault Node.fault? s.nodes fault ∨
    Faultless Node.fault? s.nodes ∧
      LayerCanvas.FirstFault (Connection.fault? s.nodes) s.connections fault

end Snapshot

theorem Node.fault?_eq_none_iff {before : List (Node C R)} {n : Node C R} :
    n.fault? before = none ↔ n.id ∉ before.map Node.id ∧ n.hasValidGeometry = true := by
  unfold Node.fault?
  split_ifs <;> simp_all

omit [Scalar C] in
theorem Connection.fault?_eq_none_iff {nodes : List (Node C R)} {before : List (Connection C)}
    {c : Connection C} :
    c.fault? nodes before = none ↔
      c.id ∉ before.map Connection.id ∧ c.source ≠ c.target ∧ c.source ∈ nodes.map Node.id ∧
        c.target ∈ nodes.map Node.id ∧ c.ends ∉ before.map Connection.ends := by
  unfold Connection.fault?
  split_ifs <;> simp_all

theorem nodup_map_concat_iff {α β : Type} {f : α → β} {items : List α} {item : α} :
    ((items ++ [item]).map f).Nodup ↔ (items.map f).Nodup ∧ f item ∉ items.map f := by
  rw [List.map_append, List.map_singleton, List.nodup_append_comm, List.singleton_append,
    List.nodup_cons, and_comm]

theorem faultless_nodes_iff {nodes : List (Node C R)} :
    Faultless Node.fault? nodes ↔
      (nodes.map Node.id).Nodup ∧ ∀ n ∈ nodes, n.hasValidGeometry = true := by
  induction nodes using List.reverseRecOn with
  | nil => simp [faultless_nil]
  | append_singleton nodes n ih =>
    rw [faultless_concat_iff, ih, Node.fault?_eq_none_iff, nodup_map_concat_iff]
    simp only [List.forall_mem_append, List.forall_mem_singleton]
    tauto

omit [Scalar C] in
theorem faultless_connections_iff {nodes : List (Node C R)} {connections : List (Connection C)} :
    Faultless (Connection.fault? nodes) connections ↔
      (connections.map Connection.id).Nodup ∧ (∀ c ∈ connections, c.source ≠ c.target) ∧
        (∀ c ∈ connections, c.source ∈ nodes.map Node.id) ∧
          (∀ c ∈ connections, c.target ∈ nodes.map Node.id) ∧
            (connections.map Connection.ends).Nodup := by
  induction connections using List.reverseRecOn with
  | nil => simp [faultless_nil]
  | append_singleton connections c ih =>
    rw [faultless_concat_iff, ih, Connection.fault?_eq_none_iff, nodup_map_concat_iff,
      nodup_map_concat_iff]
    simp only [List.forall_mem_append, List.forall_mem_singleton]
    tauto

theorem Snapshot.sound_iff {s : Snapshot C R} :
    s.Sound ↔ Faultless Node.fault? s.nodes ∧
      Faultless (Connection.fault? s.nodes) s.connections := by
  rw [faultless_nodes_iff, faultless_connections_iff]
  constructor
  · intro h
    exact ⟨⟨h.nodeIds_nodup, h.valid⟩, h.connectionIds_nodup, h.source_ne_target, h.source_mem,
      h.target_mem, h.ends_nodup⟩
  · rintro ⟨⟨hnodes, hvalid⟩, hids, hloop, hsource, htarget, hends⟩
    exact ⟨hnodes, hvalid, hids, hloop, hsource, htarget, hends⟩

/-- A snapshot that is not sound has a first fault. -/
theorem Snapshot.sound_or_firstFault (s : Snapshot C R) :
    s.Sound ∨ ∃ fault, s.FirstFault fault := by
  rw [sound_iff]
  rcases faultless_or_firstFault Node.fault? s.nodes with hnodes | ⟨fault, hnode⟩
  · rcases faultless_or_firstFault (Connection.fault? s.nodes) s.connections with
      hconnections | ⟨fault, hconnection⟩
    · exact Or.inl ⟨hnodes, hconnections⟩
    · exact Or.inr ⟨fault, Or.inr ⟨hnodes, hconnection⟩⟩
  · exact Or.inr ⟨fault, Or.inl hnode⟩

/-! ### Loading -/

/-- A connection of a snapshot as a load leaves it: at rest, with its ends at the anchors of its
nodes. -/
def Connection.placed (nodes : List (Node C R)) (c : Connection C) : Connection C where
  id := c.id
  source := c.source
  target := c.target
  start := ((nodes.find? fun n ↦ n.id == c.source).map Node.outputAnchor).getD ⟨0, 0⟩
  stop := ((nodes.find? fun n ↦ n.id == c.target).map Node.inputAnchor).getD ⟨0, 0⟩
  isAnimating := false
  isDeleting := false
  progress := 1

/-- A connection lies between two of the nodes, and its ends are at their anchors. -/
def Connection.AnchoredIn (c : Connection C) (nodes : List (Node C R)) : Prop :=
  ∃ source ∈ nodes, ∃ target ∈ nodes, source.id = c.source ∧ target.id = c.target ∧
    c.start = source.outputAnchor ∧ c.stop = target.inputAnchor

@[simp] theorem Connection.link_placed (nodes : List (Node C R)) (c : Connection C) :
    (c.placed nodes).link = c.link := rfl

theorem Connection.anchoredIn_placed {nodes : List (Node C R)} {c : Connection C}
    (hsource : c.source ∈ nodes.map Node.id) (htarget : c.target ∈ nodes.map Node.id) :
    (c.placed nodes).AnchoredIn nodes := by
  have hfind {id : NodeId} (h : id ∈ nodes.map Node.id) :
      ∃ n ∈ nodes, n.id = id ∧ nodes.find? (fun n ↦ n.id == id) = some n := by
    cases hn : nodes.find? fun n ↦ n.id == id with
    | none =>
      obtain ⟨n, hmem, rfl⟩ := List.mem_map.mp h
      simpa using List.find?_eq_none.mp hn n hmem
    | some n => exact ⟨n, List.mem_of_find?_eq_some hn, by simpa using List.find?_some hn, rfl⟩
  obtain ⟨source, hsmem, hsid, hs⟩ := hfind hsource
  obtain ⟨target, htmem, htid, ht⟩ := hfind htarget
  refine ⟨source, hsmem, target, htmem, hsid, htid, ?_, ?_⟩
  · simp [placed, hs]
  · simp [placed, ht]

namespace Graph

/-- The graph of a snapshot in the place of another graph. -/
def ofSnapshot (g : Graph C R) (s : Snapshot C R) : Graph C R :=
  { empty g.config g.serial with
    nodes := s.nodes
    connections := s.connections.map fun c ↦ c.placed s.nodes }

/-- Taking in one more node of a snapshot. -/
theorem checks_insertNode (g : Graph C R) :
    Checks Node.fault? (fun before ↦ g.ofSnapshot ⟨before, []⟩) insertNode := by
  intro before n
  have hcontains : (g.ofSnapshot ⟨before, []⟩).contains n.id =
      decide (n.id ∈ before.map Node.id) := by
    rw [Bool.eq_iff_iff, contains_iff, decide_eq_true_iff]
    rfl
  unfold insertNode Node.fault?
  rw [hcontains]
  by_cases hmem : n.id ∈ before.map Node.id
  · simp [hmem]
  · by_cases hvalid : n.hasValidGeometry = true <;> simp [hmem, hvalid, ofSnapshot]

/-- Taking in one more connection of a snapshot. -/
theorem checks_insertConnection (g : Graph C R) (nodes : List (Node C R)) :
    Checks (Connection.fault? nodes) (fun before ↦ g.ofSnapshot ⟨nodes, before⟩)
      insertConnection := by
  intro before c
  set state := g.ofSnapshot ⟨nodes, before⟩ with hstate
  have hid : state.containsConnection c.id = decide (c.id ∈ before.map Connection.id) := by
    rw [Bool.eq_iff_iff, containsConnection_iff, decide_eq_true_iff, connectionIds, hstate,
      ofSnapshot, List.map_map]
    rfl
  have hpair : (state.connections.any fun d ↦ d.source == c.source && d.target == c.target) =
      decide (c.ends ∈ before.map Connection.ends) := by
    rw [Bool.eq_iff_iff, decide_eq_true_iff]
    simp [state, ofSnapshot, Connection.placed, Connection.ends]
  have hnone {id : NodeId} (h : state.node? id = none) : id ∉ nodes.map Node.id :=
    node?_eq_none_iff.mp h
  have hsome {id : NodeId} {n : Node C R} (h : state.node? id = some n) :
      id ∈ nodes.map Node.id :=
    List.mem_map.mpr ⟨n, List.mem_of_find?_eq_some h, by simpa using List.find?_some h⟩
  unfold insertConnection Connection.fault?
  rw [hid, hpair]
  -- The cases come in the order of the checks.
  by_cases htaken : c.id ∈ before.map Connection.id
  · simp [htaken]
  by_cases hloop : c.source = c.target
  · simp [htaken, hloop]
  cases hsource : state.node? c.source with
  | none => simp [htaken, hloop, hnone hsource]
  | some source =>
    cases htarget : state.node? c.target with
    | none => simp [htaken, hloop, hsome hsource, hnone htarget]
    | some target =>
      by_cases hjoined : c.ends ∈ before.map Connection.ends
      · simp [htaken, hloop, hsome hsource, hsome htarget, hjoined]
      · have hplaced : (c.anchored source target).settled = c.placed nodes := by
          have hs : nodes.find? (fun n ↦ n.id == c.source) = some source := hsource
          have ht : nodes.find? (fun n ↦ n.id == c.target) = some target := htarget
          simp [Connection.placed, Connection.anchored, Connection.settled, hs, ht]
        simp [htaken, hloop, hsome hsource, hsome htarget, hjoined, hplaced, ofSnapshot]

theorem load_of_sound (g : Graph C R) {s : Snapshot C R} (h : s.Sound) :
    g.load s = .ok (g.ofSnapshot s) := by
  obtain ⟨hnodes, hconnections⟩ := Snapshot.sound_iff.mp h
  have hfirst := g.checks_insertNode.foldlM_of_faultless hnodes
  have hsecond := (g.checks_insertConnection s.nodes).foldlM_of_faultless hconnections
  calc g.load s
      = s.nodes.foldlM insertNode (g.ofSnapshot ⟨[], []⟩) >>=
          s.connections.foldlM insertConnection := rfl
    _ = s.connections.foldlM insertConnection (g.ofSnapshot ⟨s.nodes, []⟩) := by rw [hfirst]; rfl
    _ = .ok (g.ofSnapshot s) := hsecond

theorem load_of_firstFault (g : Graph C R) {s : Snapshot C R} {fault : GraphError}
    (h : s.FirstFault fault) : g.load s = .error fault := by
  have hload : g.load s =
      s.nodes.foldlM insertNode (g.ofSnapshot ⟨[], []⟩) >>=
        s.connections.foldlM insertConnection := rfl
  rw [hload]
  rcases h with hnode | ⟨hnodes, hconnection⟩
  · have hfirst := g.checks_insertNode.foldlM_of_firstFault hnode
    rw [hfirst]
    rfl
  · have hfirst := g.checks_insertNode.foldlM_of_faultless hnodes
    have hsecond := (g.checks_insertConnection s.nodes).foldlM_of_firstFault hconnection
    rw [hfirst]
    exact hsecond

/-- A load succeeds exactly on a sound snapshot, and there is one graph that it makes of it. -/
theorem load_eq_ok_iff {g loaded : Graph C R} {s : Snapshot C R} :
    g.load s = .ok loaded ↔ s.Sound ∧ loaded = g.ofSnapshot s := by
  constructor
  · intro h
    rcases s.sound_or_firstFault with hsound | ⟨fault, hfault⟩
    · rw [g.load_of_sound hsound] at h
      exact ⟨hsound, (Except.ok.inj h).symm⟩
    · rw [g.load_of_firstFault hfault] at h
      cases h
  · rintro ⟨hsound, rfl⟩
    exact g.load_of_sound hsound

/-- A load fails exactly with the first fault of the snapshot. -/
theorem load_eq_error_iff {g : Graph C R} {s : Snapshot C R} {fault : GraphError} :
    g.load s = .error fault ↔ s.FirstFault fault := by
  constructor
  · intro h
    rcases s.sound_or_firstFault with hsound | ⟨fault', hfault⟩
    · rw [g.load_of_sound hsound] at h
      cases h
    · rw [g.load_of_firstFault hfault] at h
      cases h
      exact hfault
  · exact g.load_of_firstFault

/-- Of a connection, a load reads its name and what it joins. Of the graph before it, a load keeps
the settings and the next serial. -/
theorem load_congr {g old : Graph C R} {s other : Snapshot C R} (hconfig : old.config = g.config)
    (hserial : old.serial = g.serial) (hnodes : other.nodes = s.nodes)
    (hlinks : other.connections.map Connection.link = s.connections.map Connection.link) :
    old.load other = g.load s := by
  let ofLink (link : ConnectionId × NodeId × NodeId) : Connection C :=
    .new link.1 link.2.1 link.2.2 ⟨0, 0⟩ ⟨0, 0⟩
  have hlink (g : Graph C R) (c : Connection C) :
      g.insertConnection c = g.insertConnection (ofLink c.link) := rfl
  have hread (connections : List (Connection C)) (g : Graph C R) :
      connections.foldlM insertConnection g =
        (connections.map Connection.link).foldlM (fun g link ↦ g.insertConnection (ofLink link))
          g := by
    rw [List.foldlM_map]
    rfl
  simp only [load, hconfig, hserial, hnodes, hread, hlinks]

/-- What a load has made of a snapshot. -/
structure Shows (g : Graph C R) (s : Snapshot C R) : Prop where
  nodes : g.nodes = s.nodes
  links : g.links = s.connections.map Connection.link
  anchored : ∀ c ∈ g.connections, c.AnchoredIn g.nodes
  atRest : g.AtRest

theorem shows_ofSnapshot (g : Graph C R) {s : Snapshot C R} (h : s.Sound) :
    (g.ofSnapshot s).Shows s := by
  constructor
  · rfl
  · simp [links, ofSnapshot, Function.comp_def]
  · intro c hc
    obtain ⟨d, hd, rfl⟩ := List.mem_map.mp hc
    exact Connection.anchoredIn_placed (h.source_mem d hd) (h.target_mem d hd)
  · exact atRest_load (g.load_of_sound h)

variable [Scalar R] [Precision C R]

/-- A load takes exactly the sound snapshots. It refuses any other one with its first fault, and the
graph stays what it was. What it takes it shows as it is. The ends and the animations that a
snapshot gives its connections make no difference, and neither does what was in the graph before.
-/
theorem load_exact (g : Graph C R) (s : Snapshot C R) :
    ((∃ loaded, g.load s = .ok loaded) ↔ s.Sound) ∧
      (¬ s.Sound → g.apply (.load s) = g) ∧
        (∀ fault, g.load s = .error fault ↔ s.FirstFault fault) ∧
          (∀ loaded, g.load s = .ok loaded → g.apply (.load s) = loaded ∧ loaded.Shows s) ∧
            ∀ (old : Graph C R) (other : Snapshot C R), old.config = g.config →
              old.serial = g.serial → other.nodes = s.nodes →
                other.connections.map Connection.link = s.connections.map Connection.link →
                  old.load other = g.load s := by
  refine ⟨?_, ?_, fun fault ↦ load_eq_error_iff, ?_, fun old other ↦ load_congr⟩
  · simp [load_eq_ok_iff]
  · intro hunsound
    obtain ⟨fault, hfault⟩ := s.sound_or_firstFault.resolve_left hunsound
    rw [apply, g.load_of_firstFault hfault]
    rfl
  · intro loaded hload
    obtain ⟨hsound, rfl⟩ := load_eq_ok_iff.mp hload
    rw [apply, hload]
    exact ⟨rfl, g.shows_ofSnapshot hsound⟩

/-- Two nodes with a connection between them are loaded, and with a second connection for the same
pair they are not. -/
theorem load_exact_doubled :
    ∃ s doubled : Snapshot Float32 Float, s.Sound ∧ ¬ doubled.Sound ∧
      doubled.FirstFault (.duplicateConnection ⟨"a"⟩ ⟨"b"⟩) ∧
        ((Graph.empty .standard).apply (.load s)).Shows s ∧
          ((Graph.empty .standard).apply (.load s)).apply (.load doubled) =
            (Graph.empty .standard).apply (.load s) := by
  let layer : Layer := ⟨"Input", "", "", "", .empty, "", ""⟩
  let nodes : List Node := [⟨⟨"a"⟩, layer, ⟨0, 0⟩, 140, 86⟩, ⟨⟨"b"⟩, layer, ⟨200, 0⟩, 140, 86⟩]
  let link (text : String) : Connection := .new ⟨text⟩ ⟨"a"⟩ ⟨"b"⟩ ⟨0, 0⟩ ⟨0, 0⟩
  let s : Snapshot := ⟨nodes, [link "c"]⟩
  let doubled : Snapshot := ⟨nodes, [link "c", link "d"]⟩
  let g : Graph := (Graph.empty .standard).apply (.load s)
  have hload : (Graph.empty .standard).load s = .ok g := by decide +kernel
  have hfault : g.load doubled = .error (.duplicateConnection ⟨"a"⟩ ⟨"b"⟩) := by decide +kernel
  obtain ⟨hsound, -, -, hshows, -⟩ := load_exact (.empty .standard) s
  obtain ⟨hdoubled, hkept, hfirst, -, -⟩ := load_exact g doubled
  have hunsound : ¬ doubled.Sound := by
    rw [← hdoubled, hfault]
    rintro ⟨loaded, hok⟩
    cases hok
  exact ⟨s, doubled, hsound.mp ⟨g, hload⟩, hunsound, (hfirst _).mp hfault, (hshows g hload).2,
    hkept hunsound⟩

end Graph

end LayerCanvas
