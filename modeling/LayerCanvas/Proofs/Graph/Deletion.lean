import LayerCanvas.Proofs.Graph.Simple

/-!
Requests to delete, one after the other. Whether a node goes at once or begins to wait depends on
whether any connection touches it, and no request takes a connection away: it only begins to fade.
So what a list of requests leads to can be told from the requests that are in it. A connection fades
if it is named or touches a node that is named, a named node goes if nothing touches it and waits
otherwise, and whatever begins to fade has its animation started.

The order of the requests, and how often each is made, therefore does not show, except in the order
in which the nodes began to wait. Clearing the graph makes a request for every node.
-/

set_option autoImplicit false
set_option relaxedAutoImplicit false

namespace LayerCanvas

variable {C R : Type}

/-- A request to delete a node or a connection. -/
inductive Deletion
  | node (id : NodeId)
  | connection (id : ConnectionId)
  deriving DecidableEq

namespace Deletion

/-- The call that makes the request. -/
def call : Deletion → Call C R
  | .node id => .deleteNode id
  | .connection id => .deleteConnection id

/-- Whether the request is meant for a connection. -/
def reaches : Deletion → Connection C → Bool
  | .node id, c => c.touches id
  | .connection id, c => c.id == id

end Deletion

namespace Connection

/-- Whether any of several requests is meant for the connection. -/
def isReached (c : Connection C) (requests : List Deletion) : Bool :=
  requests.any fun request ↦ request.reaches c

/-- The connection after several requests. -/
def fadedBy (requests : List Deletion) (c : Connection C) : Connection C :=
  if c.isReached requests then c.fade else c

theorem isReached_congr {c d : Connection C} (h : d.link = c.link) (requests : List Deletion) :
    d.isReached requests = c.isReached requests := by
  obtain ⟨hid, hends⟩ := Prod.mk.inj h
  obtain ⟨hsource, htarget⟩ := Prod.mk.inj hends
  unfold isReached
  congr 1
  funext request
  cases request <;> simp only [Deletion.reaches, touches, hid, hsource, htarget]

@[simp] theorem link_fadedBy (requests : List Deletion) (c : Connection C) :
    (c.fadedBy requests).link = c.link := by
  unfold fadedBy
  split
  · exact c.link_fade
  · rfl

theorem isReached_append (c : Connection C) (first second : List Deletion) :
    c.isReached (first ++ second) = (c.isReached first || c.isReached second) := List.any_append

theorem isReached_of_subset {c : Connection C} {first second : List Deletion}
    (h : first ⊆ second) (hc : c.isReached first = true) : c.isReached second = true := by
  obtain ⟨request, hmem, hreaches⟩ := List.any_eq_true.mp hc
  exact List.any_eq_true.mpr ⟨request, h hmem, hreaches⟩

/-- Requests after others fade what the others have left. -/
theorem fadedBy_fadedBy (first second : List Deletion) (c : Connection C) :
    (c.fadedBy first).fadedBy second = c.fadedBy (first ++ second) := by
  have hreached := isReached_congr (c.link_fadedBy first) second
  unfold fadedBy at hreached ⊢
  rw [hreached, isReached_append]
  cases c.isReached first <;> cases c.isReached second <;>
    simp [fade_of_isDeleting]

theorem isLive_fadedBy (requests : List Deletion) (c : Connection C) :
    (c.fadedBy requests).isLive = (c.isLive && !c.isReached requests) := by
  unfold fadedBy
  cases c.isReached requests <;> simp [isLive]

end Connection

namespace Graph

/-- The connections that count, and that several requests are meant for. -/
def reached (g : Graph C R) (requests : List Deletion) (id : ConnectionId) : Bool :=
  g.liveConnections.any fun c ↦ c.id == id && c.isReached requests

/-- What several requests to delete have made of a graph. -/
structure Deleted (g : Graph C R) (requests : List Deletion) (g' : Graph C R) : Prop where
  config : g'.config = g.config
  serial : g'.serial = g.serial
  duration : g'.animator.duration = g.animator.duration
  connections : g'.connections = g.connections.map (Connection.fadedBy requests)
  /-- A named node that nothing touches goes. -/
  nodes : g'.nodes = g.nodes.filter fun n ↦ g.isTouched n.id || !requests.contains (.node n.id)
  /-- Any other named node waits. -/
  mem_leaving_iff : ∀ id, id ∈ g'.leaving ↔
    id ∈ g.leaving ∨ id ∈ g.nodeIds ∧ g.isTouched id = true ∧ .node id ∈ requests
  /-- What has begun to fade has its animation started. -/
  tweens : ∀ id, g'.animator.find? id =
    if g.reached requests id then some ⟨.deletion, g.animator.deletionMs, none⟩
    else g.animator.find? id

/-- Two graphs that are the same but for the order in which the nodes began to wait. Tweens have no
order. -/
structure Agrees (g g' : Graph C R) : Prop where
  config : g.config = g'.config
  serial : g.serial = g'.serial
  nodes : g.nodes = g'.nodes
  connections : g.connections = g'.connections
  leaving : g.leaving.Perm g'.leaving
  duration : g.animator.duration = g'.animator.duration
  tweens : ∀ id, g.animator.find? id = g'.animator.find? id

namespace Deleted

variable {g g' g'' : Graph C R} {requests others : List Deletion}

theorem nil (g : Graph C R) : Deleted g [] g := by
  have hfaded : (Connection.fadedBy [] : Connection C → Connection C) = id := rfl
  have hreached (id : ConnectionId) : g.reached [] id = false := by
    simp [reached, Connection.isReached]
  constructor <;> simp [hfaded, hreached]

theorem links (h : Deleted g requests g') : g'.links = g.links := by
  simp only [Graph.links, h.connections, List.map_map]
  exact List.map_congr_left fun c _ ↦ c.link_fadedBy requests

theorem isTouched (h : Deleted g requests g') (id : NodeId) : g'.isTouched id = g.isTouched id :=
  isTouched_congr h.links id

theorem mem_nodeIds_iff (h : Deleted g requests g') {id : NodeId} :
    id ∈ g'.nodeIds ↔ id ∈ g.nodeIds ∧ (g.isTouched id = true ∨ .node id ∉ requests) := by
  simp only [nodeIds, h.nodes, List.mem_map, List.mem_filter, Bool.or_eq_true, Bool.not_eq_true',
    List.contains_eq_mem, decide_eq_false_iff_not]
  constructor
  · rintro ⟨n, ⟨hn, hkept⟩, rfl⟩
    exact ⟨⟨n, hn, rfl⟩, hkept⟩
  · rintro ⟨⟨n, hn, rfl⟩, hkept⟩
    exact ⟨n, ⟨hn, hkept⟩, rfl⟩

theorem liveConnections (h : Deleted g requests g') :
    g'.liveConnections = g.liveConnections.filter fun c ↦ !c.isReached requests := by
  rw [Graph.liveConnections, Graph.liveConnections, h.connections, List.filter_filter]
  induction g.connections with
  | nil => rfl
  | cons c rest ih =>
    have hlive := c.isLive_fadedBy requests
    rw [List.map_cons, List.filter_cons, List.filter_cons, hlive, ih, Bool.and_comm]
    split_ifs with hkept
    · rw [Bool.and_eq_true, Bool.not_eq_true'] at hkept
      rw [Connection.fadedBy, hkept.1]
      rfl
    · rfl

/-- Requests that are made after others. -/
theorem trans (h : Deleted g requests g') (h' : Deleted g' others g'') :
    Deleted g (requests ++ others) g'' := by
  have hduration : g'.animator.deletionMs = g.animator.deletionMs :=
    congrFun h.duration .deletion
  constructor
  · exact h'.config.trans h.config
  · exact h'.serial.trans h.serial
  · exact h'.duration.trans h.duration
  · rw [h'.connections, h.connections, List.map_map]
    exact List.map_congr_left fun c _ ↦ c.fadedBy_fadedBy requests others
  · rw [h'.nodes, h.nodes, List.filter_filter]
    refine List.filter_congr fun n _ ↦ ?_
    rw [h.isTouched, List.contains_append]
    cases g.isTouched n.id <;> simp [Bool.and_comm]
  · intro id
    rw [h'.mem_leaving_iff, h.mem_leaving_iff, h.mem_nodeIds_iff, h.isTouched, List.mem_append]
    tauto
  · intro id
    rw [h'.tweens, h.tweens, hduration]
    have hreached : g.reached (requests ++ others) id =
        (g.reached requests id || g'.reached others id) := by
      rw [Bool.eq_iff_iff]
      simp only [reached, h.liveConnections, List.any_filter, Connection.isReached_append,
        Bool.or_eq_true, List.any_eq_true, Bool.and_eq_true, Bool.not_eq_true']
      grind
    rw [hreached]
    cases g.reached requests id <;> cases g'.reached others id <;> rfl

/-- What has been made of a graph is told by the requests alone. -/
theorem agrees (h : Deleted g requests g') (h' : Deleted g others g'')
    (hsame : ∀ request, request ∈ requests ↔ request ∈ others) (hnodup : g'.leaving.Nodup)
    (hnodup' : g''.leaving.Nodup) : Agrees g' g'' := by
  have hreached (c : Connection C) : c.isReached requests = c.isReached others := by
    rw [Bool.eq_iff_iff]
    exact ⟨c.isReached_of_subset fun request ↦ (hsame request).mp,
      c.isReached_of_subset fun request ↦ (hsame request).mpr⟩
  constructor
  · rw [h.config, h'.config]
  · rw [h.serial, h'.serial]
  · rw [h.nodes, h'.nodes]
    exact List.filter_congr fun n _ ↦ by simp [hsame]
  · rw [h.connections, h'.connections]
    exact List.map_congr_left fun c _ ↦ by rw [Connection.fadedBy, Connection.fadedBy, hreached]
  · refine (List.perm_ext_iff_of_nodup hnodup hnodup').mpr fun id ↦ ?_
    rw [h.mem_leaving_iff, h'.mem_leaving_iff, hsame]
  · rw [h.duration, h'.duration]
  · intro id
    rw [h.tweens, h'.tweens, reached, reached]
    simp only [hreached]

end Deleted

/-! ### One request -/

theorem animator_deleteConnection {g : Graph C R} (h : g.connectionIds.Nodup) (id : ConnectionId) :
    (g.deleteConnection id).animator =
      if g.liveConnections.any fun c ↦ c.id == id then g.animator.start id .deletion
      else g.animator := by
  have hany : (g.liveConnections.any fun c ↦ c.id == id) = true ↔
      ∃ c, g.connection? id = some c ∧ c.isDeleting = false := by
    simp only [List.any_eq_true, mem_liveConnections, connection?_eq_some_iff h, beq_iff_eq]
    exact exists_congr fun c ↦ by tauto
  simp only [hany]
  unfold deleteConnection deleteConnection?
  cases g.connection? id with
  | none => simp
  | some c => cases hdeleting : c.isDeleting <;> simp [hdeleting]

theorem deleted_deleteConnection {g : Graph C R} (h : g.connectionIds.Nodup) (id : ConnectionId) :
    Deleted g [.connection id] (g.deleteConnection id) := by
  obtain ⟨hconfig, hnodes, hleaving, hserial⟩ := g.deleteConnection_frame id
  have hreached (c : Connection C) : c.isReached [.connection id] = (c.id == id) := by
    simp [Connection.isReached, Deletion.reaches]
  have hanimator := animator_deleteConnection h id
  constructor
  · exact hconfig
  · exact hserial
  · rw [hanimator]
    split <;> rfl
  · rw [connections_deleteConnection h]
    refine List.map_congr_left fun c _ ↦ ?_
    simp only [Connection.fadedBy, hreached, beq_iff_eq]
  · rw [hnodes]
    exact (List.filter_eq_self.mpr fun n _ ↦ by simp).symm
  · simp [hleaving]
  · intro other
    have hreached' : g.reached [.connection id] other =
        (decide (other = id) && g.liveConnections.any fun c ↦ c.id == id) := by
      rw [Bool.eq_iff_iff]
      simp only [reached, hreached, List.any_eq_true, Bool.and_eq_true, beq_iff_eq,
        decide_eq_true_eq]
      grind
    rw [hanimator, hreached']
    by_cases hother : other = id <;>
      cases g.liveConnections.any fun c ↦ c.id == id <;>
        simp [Animator.find?_start, Animator.duration, hother]

theorem deleted_fadeAll {g : Graph C R} (h : g.WellFormed) (ids : List ConnectionId) :
    Deleted g (ids.map .connection) (g.fadeAll ids) := by
  induction ids generalizing g with
  | nil => exact .nil g
  | cons id rest ih =>
    have hfirst := deleted_deleteConnection h.connectionIds_nodup id
    exact hfirst.trans (ih (h.deleteConnection id))

/-- To name every connection that counts at a node is to reach what the node reaches. -/
theorem reached_touching {g : Graph C R} (h : g.connectionIds.Nodup) (id : NodeId)
    (other : ConnectionId) :
    g.reached (((g.touching id .both).map Connection.id).map .connection) other =
      g.reached [.node id] other := by
  have hmem {c : Connection C} (hc : c ∈ g.liveConnections) :
      c.isReached (((g.touching id .both).map Connection.id).map .connection) =
        c.isReached [.node id] := by
    obtain ⟨hc, hlive⟩ := mem_liveConnections.mp hc
    rw [Bool.eq_iff_iff]
    simp only [Connection.isReached, List.any_map, List.any_eq_true, Function.comp_apply,
      Deletion.reaches, beq_iff_eq, List.mem_singleton, exists_eq_left, mem_touching_both]
    constructor
    · rintro ⟨d, ⟨hd, -, htouch⟩, hid⟩
      rwa [List.inj_on_of_nodup_map h hc hd hid]
    · exact fun htouch ↦ ⟨c, ⟨hc, hlive, htouch⟩, rfl⟩
  rw [Bool.eq_iff_iff, reached, reached, List.any_eq_true, List.any_eq_true]
  exact exists_congr fun c ↦ and_congr_right fun hc ↦ by rw [hmem hc]

/-- What becomes of the connections when a node is deleted, whatever becomes of the node. -/
theorem deleted_fadeAt {g : Graph C R} (h : g.WellFormed) {id : NodeId} {nodes : List (Node C R)}
    {leaving : List NodeId}
    (hnodes : nodes = g.nodes.filter fun n ↦ g.isTouched n.id || n.id != id)
    (hleaving : ∀ other,
      other ∈ leaving ↔ other ∈ g.leaving ∨ other ∈ g.nodeIds ∧ g.isTouched other ∧ other = id) :
    Deleted g [.node id] { g.fadeAt id with nodes, leaving } := by
  have hfaded := deleted_fadeAll h ((g.touching id .both).map Connection.id)
  constructor
  · exact hfaded.config
  · exact hfaded.serial
  · exact hfaded.duration
  · refine (connections_fadeAt h.connectionIds_nodup id).trans (List.map_congr_left fun c _ ↦ ?_)
    simp [Connection.fadedBy, Connection.isReached, Deletion.reaches]
  · simp only [hnodes, List.contains_eq_mem, List.mem_singleton, Deletion.node.injEq]
    exact List.filter_congr fun n _ ↦ congrArg (_ || !·) (beq_eq_decide n.id id)
  · simpa using hleaving
  · intro other
    refine (hfaded.tweens other).trans ?_
    rw [reached_touching h.connectionIds_nodup]

/-- Nothing that counts is attached to a node that cannot be deleted. -/
theorem fadeAt_of_refused {g : Graph C R} (h : g.WellFormed) (hs : g.Simple) {id : NodeId}
    (hrefused : id ∈ g.nodeIds → id ∈ g.leaving) : g.fadeAt id = g := by
  have hnone : g.touching id .both = [] := by
    refine List.eq_nil_iff_forall_not_mem.mpr fun c hc ↦ ?_
    obtain ⟨hmem, hlive, htouch⟩ := mem_touching_both.mp hc
    have hid : id ∈ g.nodeIds := by
      rcases Connection.touches_iff.mp htouch with rfl | rfl
      · exact h.source_mem hmem
      · exact h.target_mem hmem
    have hstays := hs.live_stays c (mem_liveConnections.mpr ⟨hmem, hlive⟩) id (hrefused hid)
    rw [hstays] at htouch
    cases htouch
  rw [fadeAt, hnone]
  rfl

/-- Who waits stays the same if a node that has connections waits already. -/
theorem mem_leaving_iff_of_waiting {g : Graph C R} {id : NodeId}
    (hwaiting : id ∈ g.nodeIds → g.isTouched id = true → id ∈ g.leaving) (other : NodeId) :
    other ∈ g.leaving ↔
      other ∈ g.leaving ∨ other ∈ g.nodeIds ∧ g.isTouched other ∧ other = id := by
  refine ⟨Or.inl, ?_⟩
  rintro (hold | ⟨hmem, htouched, rfl⟩)
  · exact hold
  · exact hwaiting hmem htouched

/-- To name a node that is not there, or that waits already, changes nothing. -/
theorem deleted_of_refused {g : Graph C R} (h : g.WellFormed) (hs : g.Simple) {id : NodeId}
    (hrefused : id ∈ g.nodeIds → id ∈ g.leaving) : Deleted g [.node id] g := by
  have hkept : g.nodes.filter (fun n ↦ g.isTouched n.id || n.id != id) = g.nodes := by
    refine List.filter_eq_self.mpr fun n hn ↦ ?_
    by_cases hid : n.id = id
    · have hleaving := hrefused (hid ▸ List.mem_map_of_mem hn)
      simp [hid, hs.isTouched_leaving hleaving]
    · simp [hid]
  have hdeleted := deleted_fadeAt h hkept.symm
    (mem_leaving_iff_of_waiting fun hmem _ ↦ hrefused hmem)
  rwa [fadeAt_of_refused h hs hrefused] at hdeleted

theorem deleted_deleteNode {g : Graph C R} (h : g.WellFormed) (hs : g.Simple) (id : NodeId) :
    Deleted g [.node id] (g.deleteNode id) := by
  unfold deleteNode
  -- A node with connections waits for them to fade. One without goes at once.
  cases hdel : g.deleteNode? id with
  | none =>
    refine deleted_of_refused h hs fun hmem ↦ ?_
    by_contra hstays
    cases htouch : g.isTouched id with
    | true => simp [deleteNode?_eq_some_iff.mpr ⟨hmem, hstays, .inl ⟨htouch, rfl⟩⟩] at hdel
    | false => simp [deleteNode?_eq_some_iff.mpr ⟨hmem, hstays, .inr ⟨htouch, rfl⟩⟩] at hdel
  | some g' =>
    obtain ⟨hmem, hstays, ⟨htouched, rfl⟩ | ⟨huntouched, rfl⟩⟩ := deleteNode?_eq_some_iff.mp hdel
    · have hnodes : (g.fadeAt id).nodes = g.nodes := (g.fadeAll_frame _).2.1
      have hkept : g.nodes.filter (fun n ↦ g.isTouched n.id || n.id != id) = g.nodes := by
        refine List.filter_eq_self.mpr fun n _ ↦ ?_
        by_cases hid : n.id = id <;> simp [hid, htouched]
      refine deleted_fadeAt h (hnodes.trans hkept.symm) fun other ↦ ?_
      rw [List.mem_append, List.mem_singleton]
      refine or_congr_right ⟨?_, fun hother ↦ hother.2.2⟩
      rintro rfl
      exact ⟨hmem, htouched, rfl⟩
    · have hsame : g.fadeAt id = g := by
        rw [fadeAt, touching_both_of_untouched huntouched]
        rfl
      have hnone : id ∈ g.nodeIds → g.isTouched id = true → id ∈ g.leaving :=
        fun _ htouched ↦ absurd htouched (by simp [huntouched])
      have hdeleted := deleted_fadeAt h rfl (mem_leaving_iff_of_waiting hnone)
      have hgone : g.nodes.filter (fun n ↦ g.isTouched n.id || n.id != id) =
          g.nodes.filter fun n ↦ n.id != id := by
        refine List.filter_congr fun n _ ↦ ?_
        by_cases hid : n.id = id <;> simp [hid, huntouched]
      rwa [hsame, hgone] at hdeleted

/-! ### All requests -/

variable [Scalar C] [Scalar R] [Precision C R]

theorem deleted_applyAll {g : Graph C R} (h : g.WellFormed ∧ g.Simple) (requests : List Deletion) :
    Deleted g requests (g.applyAll (requests.map Deletion.call)) := by
  induction requests generalizing g with
  | nil => exact .nil g
  | cons request rest ih =>
    have hfirst : Deleted g [request] (g.apply request.call) := by
      cases request with
      | node id => exact deleted_deleteNode h.1 h.2 id
      | connection id => exact deleted_deleteConnection h.1.connectionIds_nodup id
    exact hfirst.trans (ih (Simple.apply h _))

theorem foldl_deleteNode (g : Graph C R) (ids : List NodeId) :
    ids.foldl deleteNode g = g.applyAll ((ids.map Deletion.node).map Deletion.call) := by
  rw [applyAll, List.map_map, List.foldl_map]
  rfl

omit [Scalar C] [Scalar R] [Precision C R] in
theorem deleteNode_of_leaving {g : Graph C R} {id : NodeId} (h : id ∈ g.leaving) :
    g.deleteNode id = g := by
  unfold deleteNode
  cases hdel : g.deleteNode? id with
  | none => rfl
  | some g' => exact absurd h (deleteNode?_eq_some_iff.mp hdel).2.1

omit [Scalar C] [Scalar R] [Precision C R] in
/-- A graph whose nodes all wait does not change when it is cleared. -/
theorem clear_of_leaving {g : Graph C R} (h : ∀ id ∈ g.nodeIds, id ∈ g.leaving) : g.clear = g := by
  have hfold (ids : List NodeId) (hids : ∀ id ∈ ids, id ∈ g.leaving) :
      ids.foldl deleteNode g = g := by
    induction ids with
    | nil => rfl
    | cons id rest ih =>
      rw [List.foldl_cons, deleteNode_of_leaving (hids id List.mem_cons_self)]
      exact ih fun other hother ↦ hids other (List.mem_cons_of_mem _ hother)
  exact hfold g.nodeIds h

/-- After any calls, requests to delete nodes and connections lead to the same graph in whatever
order they are made, and clearing the graph is to delete its nodes in any order: nothing counts any
more, every node that is left waits, and there is nothing left to clear. -/
theorem deletions_commute (config : EditorConfig C R) (serial : Nat) (calls : List (Call C R))
    {requests others : List Deletion} (hperm : requests.Perm others) :
    let g := run config serial calls
    Agrees (g.applyAll (requests.map Deletion.call)) (g.applyAll (others.map Deletion.call)) ∧
      (∀ ids : List NodeId, ids.Perm g.nodeIds → Agrees g.clear (ids.foldl deleteNode g)) ∧
      g.clear.liveConnections = [] ∧ (∀ id ∈ g.clear.nodeIds, id ∈ g.clear.leaving) ∧
      g.clear.clear = g.clear := by
  intro g
  have h : g.WellFormed ∧ g.Simple := ⟨wellFormed_run .., simple_run ..⟩
  have hagrees {requests others : List Deletion} (hperm : requests.Perm others) :
      Agrees (g.applyAll (requests.map Deletion.call))
        (g.applyAll (others.map Deletion.call)) := by
    have hdeleted := deleted_applyAll h
    exact (hdeleted requests).agrees (hdeleted others) (fun _ ↦ hperm.mem_iff)
      (h.1.applyAll _).leaving_nodup (h.1.applyAll _).leaving_nodup
  have hclear : g.clear = g.applyAll ((g.nodeIds.map Deletion.node).map Deletion.call) :=
    foldl_deleteNode g g.nodeIds
  have hcleared := deleted_applyAll h (g.nodeIds.map Deletion.node)
  rw [← hclear] at hcleared
  -- Every connection touches a node, and every node is named.
  have hreached : ∀ c ∈ g.liveConnections,
      c.isReached (g.nodeIds.map Deletion.node) = true := fun c hc ↦ by
    have hsource := h.1.source_mem (mem_liveConnections.mp hc).1
    exact List.any_eq_true.mpr ⟨.node c.source, List.mem_map_of_mem hsource,
      Connection.touches_iff.mpr (.inl rfl)⟩
  have hwaiting : ∀ id ∈ g.clear.nodeIds, id ∈ g.clear.leaving := fun id hid ↦ by
    obtain ⟨hmem, htouched⟩ := hcleared.mem_nodeIds_iff.mp hid
    have hnamed : Deletion.node id ∈ g.nodeIds.map Deletion.node := List.mem_map_of_mem hmem
    refine (hcleared.mem_leaving_iff id).mpr (.inr ⟨hmem, ?_, hnamed⟩)
    exact htouched.resolve_right (not_not.mpr hnamed)
  refine ⟨hagrees hperm, fun ids hids ↦ ?_, ?_, hwaiting, clear_of_leaving hwaiting⟩
  · rw [hclear, foldl_deleteNode]
    exact hagrees (hids.symm.map Deletion.node)
  · rw [hcleared.liveConnections, List.filter_eq_nil_iff]
    intro c hc
    simp [hreached c hc]

omit [Scalar C] [Scalar R] [Precision C R] in
/-- Of three nodes in a row the two outer ones are deleted, with one of the connections, with one
node twice, and with one that is not there. Made in the other order, the requests let the two nodes
begin to wait in the other order. -/
theorem deletions_commute_row :
    let layer : Layer := ⟨"Input", "", "", "", .empty, "", ""⟩
    let node (text : String) : Node := ⟨⟨text⟩, layer, ⟨0, 0⟩, 140, 86⟩
    let connect (source target : String) : Call Float32 Float :=
      .addConnection ⟨source⟩ ⟨target⟩ ⟨0, 0⟩ ⟨0, 0⟩
    let g : Graph := run .standard 1
      [.insertNode (node "a"), .insertNode (node "b"), .insertNode (node "c"), connect "a" "b",
        connect "b" "c"]
    let requests : List Deletion :=
      [.node ⟨"a"⟩, .connection ⟨"conn-2"⟩, .node ⟨"c"⟩, .node ⟨"c"⟩, .node ⟨"d"⟩]
    let result := g.applyAll (requests.map Deletion.call)
    let result' := g.applyAll (requests.reverse.map Deletion.call)
    result.leaving = [⟨"a"⟩, ⟨"c"⟩] ∧ result'.leaving = [⟨"c"⟩, ⟨"a"⟩] ∧ Agrees result result' ∧
      Agrees g.clear ([⟨"c"⟩, ⟨"a"⟩, ⟨"b"⟩].foldl deleteNode g) ∧ g.clear.liveConnections = [] ∧
        (∀ id ∈ g.clear.nodeIds, id ∈ g.clear.leaving) ∧ g.clear.clear = g.clear := by
  intro layer node connect g requests result result'
  obtain ⟨hagrees, hclear, hrest⟩ := deletions_commute (C := Float32) (R := Float) .standard 1
    [.insertNode (node "a"), .insertNode (node "b"), .insertNode (node "c"), connect "a" "b",
      connect "b" "c"] (List.reverse_perm requests).symm
  refine ⟨by decide +kernel, by decide +kernel, hagrees, hclear _ ?_, hrest⟩
  have hids : g.nodeIds = [⟨"a"⟩, ⟨"b"⟩, ⟨"c"⟩] := by decide +kernel
  rw [hids]
  decide

end Graph

end LayerCanvas
