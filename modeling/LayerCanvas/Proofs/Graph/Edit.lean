import LayerCanvas.Graph.Edit
import LayerCanvas.Proofs.Animator
import LayerCanvas.Proofs.Names

/-!
What the edits of a graph do, one statement for each edit that later arguments need. Names of nodes
and connections are read off as lists. Letting connections fade changes flags alone, and deleting a
node is one of two things: the node is untouched and goes, or the connections at it fade and it
begins to wait.
-/

set_option autoImplicit false
set_option relaxedAutoImplicit false

namespace LayerCanvas

variable {C R : Type}

/-! ### Connections -/

namespace Connection

/-- What an edit of the graph never changes in a connection. -/
def link (c : Connection C) : ConnectionId × NodeId × NodeId := (c.id, c.source, c.target)

/-- What a document tells of a connection. -/
def outline (c : Connection C) : (ConnectionId × NodeId × NodeId) × Point C × Point C :=
  (c.link, c.start, c.stop)

/-- The connection when it has been told to fade. -/
def fade (c : Connection C) : Connection C :=
  if c.isDeleting then c else { c with isDeleting := true, isAnimating := false }

@[simp] theorem id_new [Scalar C] (id : ConnectionId) (source target : NodeId)
    (start stop : Point C) : (new id source target start stop).id = id := rfl

theorem touches_iff {c : Connection C} {id : NodeId} :
    c.touches id = true ↔ c.source = id ∨ c.target = id := by
  simp [touches]

theorem isLive_iff {c : Connection C} : c.isLive = true ↔ c.isDeleting = false := by
  simp [isLive]

@[simp] theorem link_fade (c : Connection C) : c.fade.link = c.link := by
  unfold fade
  split <;> rfl

@[simp] theorem outline_fade (c : Connection C) : c.fade.outline = c.outline := by
  unfold fade
  split <;> rfl

@[simp] theorem isDeleting_fade (c : Connection C) : c.fade.isDeleting = true := by
  unfold fade
  split
  · assumption
  · rfl

theorem fade_of_isDeleting {c : Connection C} (h : c.isDeleting = true) : c.fade = c := if_pos h

/-- The connection with its ends at a node put to the anchors of the node. -/
def follow [Scalar C] (c : Connection C) (n : Node C R) : Connection C :=
  { c with
    start := if c.source = n.id then n.outputAnchor else c.start
    stop := if c.target = n.id then n.inputAnchor else c.stop }

end Connection

/-- The node with other parameters. -/
def Node.withParams (n : Node C R) (params : Params R) : Node C R :=
  { n with layer := { n.layer with params } }

/-! ### Names -/

/-- Looking for a name that is given once finds the item that has it. -/
theorem find?_name_eq_some_iff {α β : Type} [DecidableEq β] {f : α → β} {l : List α}
    (h : (l.map f).Nodup) {b : β} {a : α} :
    l.find? (fun x ↦ f x == b) = some a ↔ a ∈ l ∧ f a = b := by
  constructor
  · intro hfind
    exact ⟨List.mem_of_find?_eq_some hfind, by simpa using List.find?_some hfind⟩
  · rintro ⟨hmem, rfl⟩
    cases hfind : l.find? fun x ↦ f x == f a with
    | none => simpa using List.find?_eq_none.mp hfind a hmem
    | some x =>
      have hx : f x = f a := by simpa using List.find?_some hfind
      rw [List.inj_on_of_nodup_map h (List.mem_of_find?_eq_some hfind) hmem hx]

namespace Graph

/-- The names of the nodes, in the order they are painted. -/
def nodeIds (g : Graph C R) : List NodeId := g.nodes.map Node.id

/-- The names of the connections, in the order they were made. -/
def connectionIds (g : Graph C R) : List ConnectionId := g.connections.map Connection.id

/-- The connections without their looks. -/
def links (g : Graph C R) : List (ConnectionId × NodeId × NodeId) :=
  g.connections.map Connection.link

theorem map_fst_links (g : Graph C R) : g.links.map Prod.fst = g.connectionIds := by
  simp [links, connectionIds, Connection.link, Function.comp_def]

theorem mem_links {g : Graph C R} {c : Connection C} (h : c ∈ g.connections) : c.link ∈ g.links :=
  List.mem_map_of_mem h

theorem mem_connectionIds {g : Graph C R} {c : Connection C} (h : c ∈ g.connections) :
    c.id ∈ g.connectionIds :=
  List.mem_map_of_mem h

theorem contains_iff {g : Graph C R} {id : NodeId} : g.contains id = true ↔ id ∈ g.nodeIds := by
  simp [contains, nodeIds]

theorem containsConnection_iff {g : Graph C R} {id : ConnectionId} :
    g.containsConnection id = true ↔ id ∈ g.connectionIds := by
  simp [containsConnection, connectionIds]

theorem isLeaving_iff {g : Graph C R} {id : NodeId} : g.isLeaving id = true ↔ id ∈ g.leaving := by
  simp [isLeaving]

theorem isTouched_iff {g : Graph C R} {id : NodeId} :
    g.isTouched id = true ↔ ∃ c ∈ g.connections, c.touches id = true := by
  simp [isTouched]

theorem mem_liveConnections {g : Graph C R} {c : Connection C} :
    c ∈ g.liveConnections ↔ c ∈ g.connections ∧ c.isDeleting = false := by
  simp [liveConnections, Connection.isLive]

theorem node?_eq_some_iff {g : Graph C R} (h : g.nodeIds.Nodup) {id : NodeId} {n : Node C R} :
    g.node? id = some n ↔ n ∈ g.nodes ∧ n.id = id :=
  find?_name_eq_some_iff h

theorem id_of_node? {g : Graph C R} {id : NodeId} {n : Node C R} (h : g.node? id = some n) :
    n.id = id := by
  simpa using List.find?_some h

theorem node?_eq_none_iff {g : Graph C R} {id : NodeId} : g.node? id = none ↔ id ∉ g.nodeIds := by
  simp [node?, nodeIds]

theorem connection?_eq_some_iff {g : Graph C R} (h : g.connectionIds.Nodup) {id : ConnectionId}
    {c : Connection C} : g.connection? id = some c ↔ c ∈ g.connections ∧ c.id = id :=
  find?_name_eq_some_iff h

theorem connection?_eq_none_iff {g : Graph C R} {id : ConnectionId} :
    g.connection? id = none ↔ id ∉ g.connectionIds := by
  simp [connection?, connectionIds]

theorem mem_touching_both {g : Graph C R} {id : NodeId} {c : Connection C} :
    c ∈ g.touching id .both ↔
      c ∈ g.connections ∧ c.isDeleting = false ∧ c.touches id = true := by
  simp only [touching, outgoing, incoming, List.mem_append, List.mem_reverse, List.mem_filter,
    mem_liveConnections, Connection.touches, Bool.or_eq_true]
  tauto

/-! ### Fading -/

/-- The graph when several connections have been told to fade. -/
def fadeAll (g : Graph C R) (ids : List ConnectionId) : Graph C R := ids.foldl deleteConnection g

theorem deleteConnection_eq (g : Graph C R) (id : ConnectionId) :
    g.deleteConnection id = g ∨
      (∃ c ∈ g.connections, c.id = id ∧ c.isDeleting = false) ∧
        g.deleteConnection id =
          { g.updateConnection id fun c ↦ { c with isDeleting := true, isAnimating := false } with
            animator := g.animator.start id .deletion } := by
  unfold deleteConnection deleteConnection?
  cases hfind : g.connection? id with
  | none => exact Or.inl rfl
  | some c =>
    by_cases hdel : c.isDeleting = true
    · left
      simp [hdel]
    · right
      refine ⟨⟨c, List.mem_of_find?_eq_some hfind, ?_, by simpa using hdel⟩, ?_⟩
      · simpa using List.find?_some hfind
      · simp [hdel]

theorem deleteConnection_frame (g : Graph C R) (id : ConnectionId) :
    (g.deleteConnection id).config = g.config ∧ (g.deleteConnection id).nodes = g.nodes ∧
      (g.deleteConnection id).leaving = g.leaving ∧
        (g.deleteConnection id).serial = g.serial := by
  rcases g.deleteConnection_eq id with h | ⟨-, h⟩ <;> rw [h] <;> simp [updateConnection]

/-- Telling a connection to fade changes that connection alone. -/
theorem connections_deleteConnection {g : Graph C R} (h : g.connectionIds.Nodup)
    (id : ConnectionId) :
    (g.deleteConnection id).connections =
      g.connections.map fun c ↦ if c.id = id then c.fade else c := by
  have hid (hfaded : ∀ c ∈ g.connections, c.id = id → c.isDeleting = true) :
      g.connections = g.connections.map fun c ↦ if c.id = id then c.fade else c := by
    conv_lhs => rw [← List.map_id g.connections]
    refine List.map_congr_left fun c hc ↦ ?_
    split_ifs with hcid
    · rw [Connection.fade_of_isDeleting (hfaded c hc hcid), id_eq]
    · rfl
  unfold deleteConnection deleteConnection?
  cases hfind : g.connection? id with
  | none =>
    refine hid fun c hc hcid ↦ ?_
    exact absurd (hcid ▸ mem_connectionIds hc) (connection?_eq_none_iff.mp hfind)
  | some c =>
    obtain ⟨hc, hcid⟩ := (connection?_eq_some_iff h).mp hfind
    have huniq : ∀ d ∈ g.connections, d.id = id → d = c :=
      fun d hd hdid ↦ List.inj_on_of_nodup_map h hd hc (hdid.trans hcid.symm)
    by_cases hdel : c.isDeleting = true
    · simp only [hdel, if_true, Option.getD_none]
      exact hid fun d hd hdid ↦ huniq d hd hdid ▸ hdel
    · simp only [hdel, updateConnection]
      refine List.map_congr_left fun d hd ↦ ?_
      split_ifs with hdid
      · simp [Connection.fade, huniq d hd hdid, hdel]
      · rfl

@[simp] theorem links_deleteConnection (g : Graph C R) (id : ConnectionId) :
    (g.deleteConnection id).links = g.links := by
  rcases g.deleteConnection_eq id with h | ⟨-, h⟩
  · rw [h]
  · rw [h, links, links]
    simp only [updateConnection, List.map_map]
    refine List.map_congr_left fun c _ ↦ ?_
    simp only [Function.comp_apply]
    split_ifs <;> rfl

theorem fadeAll_cons (g : Graph C R) (id : ConnectionId) (rest : List ConnectionId) :
    g.fadeAll (id :: rest) = (g.deleteConnection id).fadeAll rest := rfl

@[simp] theorem links_fadeAll (g : Graph C R) (ids : List ConnectionId) :
    (g.fadeAll ids).links = g.links := by
  induction ids generalizing g with
  | nil => rfl
  | cons id rest ih => rw [fadeAll_cons, ih, links_deleteConnection]

theorem fadeAll_frame (g : Graph C R) (ids : List ConnectionId) :
    (g.fadeAll ids).config = g.config ∧ (g.fadeAll ids).nodes = g.nodes ∧
      (g.fadeAll ids).leaving = g.leaving ∧ (g.fadeAll ids).serial = g.serial := by
  induction ids generalizing g with
  | nil => exact ⟨rfl, rfl, rfl, rfl⟩
  | cons id rest ih =>
    obtain ⟨hconfig, hnodes, hleaving, hserial⟩ := g.deleteConnection_frame id
    rw [fadeAll_cons, ← hconfig, ← hnodes, ← hleaving, ← hserial]
    exact ih _

theorem connections_fadeAll {g : Graph C R} (h : g.connectionIds.Nodup) (ids : List ConnectionId) :
    (g.fadeAll ids).connections = g.connections.map fun c ↦ if c.id ∈ ids then c.fade else c := by
  induction ids generalizing g with
  | nil => simp [fadeAll]
  | cons id rest ih =>
    have hnext : (g.deleteConnection id).connectionIds.Nodup := by
      rw [← map_fst_links, links_deleteConnection, map_fst_links]
      exact h
    rw [fadeAll_cons, ih hnext, connections_deleteConnection h, List.map_map]
    refine List.map_congr_left fun c _ ↦ ?_
    by_cases hid : c.id = id <;> by_cases hrest : c.id ∈ rest <;>
      simp [hid, hrest, Connection.fade_of_isDeleting]

/-! ### Taking out -/

/-- An untouched node takes nothing along. -/
theorem dropNode_of_untouched {g : Graph C R} {id : NodeId} (h : g.isTouched id = false) :
    g.dropNode id =
      { g with
        nodes := g.nodes.filter fun n ↦ n.id != id
        leaving := g.leaving.filter fun n ↦ n != id } := by
  have hattached : g.connections.filter (fun c ↦ c.touches id) = [] := by
    simpa [isTouched] using h
  simp only [dropNode, hattached, List.foldl_nil]

/-- The graph when the connections at a node have been told to fade. -/
def fadeAt (g : Graph C R) (id : NodeId) : Graph C R :=
  g.fadeAll ((g.touching id .both).map Connection.id)

/-- When the connections at a node have been told to fade, all of them fade. -/
theorem connections_fadeAt {g : Graph C R} (h : g.connectionIds.Nodup) (id : NodeId) :
    (g.fadeAt id).connections =
      g.connections.map fun c ↦ if c.touches id then c.fade else c := by
  rw [fadeAt, connections_fadeAll h]
  refine List.map_congr_left fun c hc ↦ ?_
  have hmem : c.id ∈ (g.touching id .both).map Connection.id ↔
      c.isDeleting = false ∧ c.touches id = true := by
    constructor
    · intro hid
      obtain ⟨d, hd, hdid⟩ := List.mem_map.mp hid
      obtain ⟨hdmem, hlive, htouch⟩ := mem_touching_both.mp hd
      rw [List.inj_on_of_nodup_map h hc hdmem hdid.symm]
      exact ⟨hlive, htouch⟩
    · rintro ⟨hlive, htouch⟩
      exact List.mem_map_of_mem (mem_touching_both.mpr ⟨hc, hlive, htouch⟩)
  by_cases htouch : c.touches id = true
  · by_cases hdel : c.isDeleting = true
    · rw [Connection.fade_of_isDeleting hdel, ite_self, ite_self]
    · rw [if_pos (hmem.mpr ⟨by simpa using hdel, htouch⟩), if_pos htouch]
  · rw [if_neg fun hid ↦ htouch (hmem.mp hid).2, if_neg htouch]

theorem isTouched_congr {g g' : Graph C R} (h : g'.links = g.links) (id : NodeId) :
    g'.isTouched id = g.isTouched id := by
  have hlinks (g : Graph C R) :
      g.isTouched id = g.links.any fun link ↦ link.2.1 == id || link.2.2 == id := by
    rw [links, List.any_map]
    rfl
  rw [hlinks, hlinks, h]

theorem touching_both_of_untouched {g : Graph C R} {id : NodeId} (h : g.isTouched id = false) :
    g.touching id .both = [] := by
  refine List.eq_nil_iff_forall_not_mem.mpr fun c hc ↦ ?_
  obtain ⟨hmem, -, htouch⟩ := mem_touching_both.mp hc
  have htouched : g.isTouched id = true := isTouched_iff.mpr ⟨c, hmem, htouch⟩
  exact absurd htouched (by simp [h])

/-- Deleting a node: one that nothing touches goes at once, any other begins to wait. -/
theorem deleteNode?_eq_some_iff {g g' : Graph C R} {id : NodeId} :
    g.deleteNode? id = some g' ↔
      id ∈ g.nodeIds ∧ id ∉ g.leaving ∧
        ((g.isTouched id = true ∧ g' = { g.fadeAt id with leaving := g.leaving ++ [id] }) ∨
          (g.isTouched id = false ∧
            g' = { g with nodes := g.nodes.filter fun n ↦ n.id != id })) := by
  have hfold : (g.touching id .both).foldl (fun g c ↦ g.deleteConnection c.id) g = g.fadeAt id := by
    rw [fadeAt, fadeAll, List.foldl_map]
  have hleaving : (g.fadeAt id).leaving = g.leaving := (g.fadeAll_frame _).2.2.1
  by_cases hrefused : id ∈ g.nodeIds ∧ id ∉ g.leaving
  · have hcond : (!g.contains id || g.isLeaving id) = false := by
      simp [contains_iff.mpr hrefused.1, isLeaving, hrefused.2]
    simp only [deleteNode?, hcond, hfold, hleaving, hrefused, true_and, Bool.false_eq_true,
      if_false, Option.some.injEq, not_false_eq_true]
    by_cases htouch : g.isTouched id = true
    · simp [htouch, eq_comm]
    · have huntouched : g.isTouched id = false := by simpa using htouch
      have hsame : g.fadeAt id = g := by
        rw [fadeAt, touching_both_of_untouched huntouched]
        rfl
      have hkeep : g.leaving.filter (fun n ↦ n != id) = g.leaving := by
        refine List.filter_eq_self.mpr fun n hn ↦ ?_
        simpa using fun heq : n = id ↦ hrefused.2 (heq ▸ hn)
      rw [hsame, dropNode_of_untouched huntouched, hkeep]
      simp [huntouched, eq_comm]
  · have hcond : (!g.contains id || g.isLeaving id) = true := by
      rw [not_and_or, not_not] at hrefused
      rcases hrefused with h | h
      · simp [Bool.eq_false_iff.mpr (mt contains_iff.mp h)]
      · simp [isLeaving, h]
    simp only [deleteNode?, hcond, if_true, reduceCtorEq, false_iff]
    exact fun h ↦ hrefused ⟨h.1, h.2.1⟩

/-! ### Moving a node -/

/-- The graph with a node at another place, and with the ends of the connections at its anchors. -/
def put [Scalar C] (g : Graph C R) (n : Node C R) (origin : Point C) : Graph C R :=
  { g.updateNode n.id fun m ↦ { m with origin } with
    connections := g.connections.map fun c ↦ c.follow { n with origin } }

theorem moveNode?_eq [Scalar C] (g : Graph C R) (id : NodeId) (origin : Point C) :
    g.moveNode? id origin =
      if origin.isFinite then (g.node? id).map fun n ↦ g.put n origin else none := by
  unfold moveNode?
  cases hfinite : origin.isFinite with
  | false => rfl
  | true =>
    cases hnode : g.node? id with
    | none => rfl
    | some n =>
      obtain rfl := id_of_node? hnode
      rfl

theorem moveNode?_eq_some_iff [Scalar C] {g g' : Graph C R} {id : NodeId} {origin : Point C} :
    g.moveNode? id origin = some g' ↔
      origin.isFinite = true ∧ ∃ n, g.node? id = some n ∧ g.put n origin = g' := by
  rw [moveNode?_eq]
  cases origin.isFinite <;> simp

/-! ### Setting a parameter -/

theorem setParam_eq_ok_iff {g g' : Graph C R} {id : NodeId} {name : String} {value : ParamValue R} :
    g.setParam id name value = .ok g' ↔
      ∃ n, g.node? id = some n ∧ ∃ old, n.layer.params.find? name = some old ∧
        old.kind = value.kind ∧
          g' = g.updateNode id fun n ↦ n.withParams (n.layer.params.insert name value) := by
  unfold setParam
  cases hnode : g.node? id with
  | none => simp
  | some n =>
    cases hold : n.layer.params.find? name with
    | none => simp [hold]
    | some old =>
      by_cases hkind : old.kind = value.kind
      · simp [hold, hkind, Node.withParams, eq_comm]
      · simp [hold, hkind]

end Graph

end LayerCanvas
