import LayerCanvas.Proofs.Gesture
import LayerCanvas.Proofs.Graph.Hit
import LayerCanvas.Proofs.Graph.Identity
import LayerCanvas.Proofs.Graph.Simple
import LayerCanvas.Proofs.Session.Calls

/-!
What a gesture has hold of. A drag and a connection that is drawn name a node of the graph, and the
machine keeps the name until the gesture ends. Clearing and loading give the gesture up. Deleting
does not: a node that is deleted under the pointer, and goes at once or at a later tick, leaves a
gesture behind that names nothing, or in time another node. This is the only way for a gesture to
lose its node, and as long as it does not happen the node that is named stays the same one.
-/

set_option autoImplicit false
set_option relaxedAutoImplicit false

namespace LayerCanvas

/-! ### Calls that keep a node -/

namespace Graph

variable {g : Graph} {id : NodeId}

theorem nodeIds_subset_of_spares (g : Graph) {call : GraphCall} (h : call.Spares) :
    g.nodeIds ⊆ (g.apply call).nodeIds := by
  cases call with
  | addConnection source target start stop =>
    cases hmade : g.addConnection? source target start stop with
    | none => simp [apply, hmade]
    | some made =>
      obtain ⟨-, rfl⟩ := addConnection?_eq_some_iff.mp hmade
      simp [apply, hmade, nodeIds]
  | deleteConnection id =>
    have hnodes : (g.deleteConnection id).nodes = g.nodes := (g.deleteConnection_frame id).2.1
    simp [apply, nodeIds, hnodes]
  | addNode | bringToFront | moveNode | setParam | drawNames =>
    exact (g.edit_frame (by exact trivial)).1
  | _ => exact h.elim

theorem along_keeps_of_spares {calls : List GraphCall} (h : ∀ call ∈ calls, call.Spares)
    (hid : id ∈ g.nodeIds) : Along (Keeps id) g calls := by
  induction calls generalizing g with
  | nil => trivial
  | cons call rest ih =>
    obtain ⟨hcall, hrest⟩ := List.forall_mem_cons.mp h
    have hmem := g.nodeIds_subset_of_spares hcall hid
    refine ⟨⟨?_, hmem⟩, ih hrest hmem⟩
    cases call <;> first | exact hcall.elim | exact not_false

/-- Deleting takes out one node at most, and only if nothing touches it. -/
theorem mem_nodeIds_deleteNode {other : NodeId} (hid : id ∈ g.nodeIds)
    (h : id = other → g.isTouched id = true) : id ∈ (g.deleteNode other).nodeIds := by
  unfold deleteNode
  cases hdel : g.deleteNode? other with
  | none => exact hid
  | some g' =>
    obtain ⟨-, -, ⟨-, rfl⟩ | ⟨huntouched, rfl⟩⟩ := deleteNode?_eq_some_iff.mp hdel
    · have hnodes : (g.fadeAt other).nodes = g.nodes := (g.fadeAll_frame _).2.1
      simpa [nodeIds, hnodes] using hid
    · have hne : id ≠ other := fun heq ↦ by
        rw [← heq, h heq] at huntouched
        cases huntouched
      obtain ⟨n, hn, rfl⟩ := List.mem_map.mp hid
      exact List.mem_map_of_mem (List.mem_filter.mpr ⟨hn, by simpa using hne⟩)

theorem notMem_nodeIds_deleteNode (hsimple : g.Simple) (hid : id ∈ g.nodeIds)
    (huntouched : g.isTouched id = false) : id ∉ (g.deleteNode id).nodeIds := by
  have hstays : id ∉ g.leaving := fun hleaving ↦ by
    rw [hsimple.isTouched_leaving hleaving] at huntouched
    cases huntouched
  have hdel := deleteNode?_eq_some_iff.mpr ⟨hid, hstays, Or.inr ⟨huntouched, rfl⟩⟩
  rw [deleteNode, hdel, Option.getD_some]
  intro hmem
  obtain ⟨n, hn, heq⟩ := List.mem_map.mp hmem
  simpa [heq] using (List.mem_filter.mp hn).2

/-- A tick takes out the nodes that it reports as removed, and no others. -/
theorem mem_nodeIds_tickIn (htick : g.Tickable) (now : Float) (order : SampleOrder Float32) :
    id ∈ (g.tickIn now order).1.nodeIds ↔
      id ∈ g.nodeIds ∧ id ∉ (g.tickIn now order).2.removed := by
  obtain ⟨hgraph, hremoved⟩ := tickIn_eq htick now order
  rw [hgraph, hremoved]
  simp only [nodeIds, ticked, List.mem_map, List.mem_filter, Bool.not_eq_true',
    List.contains_eq_mem, decide_eq_false_iff_not]
  constructor
  · rintro ⟨n, ⟨hn, hkept⟩, rfl⟩
    exact ⟨⟨n, hn, rfl⟩, hkept⟩
  · rintro ⟨⟨n, hn, rfl⟩, hkept⟩
    exact ⟨n, ⟨hn, hkept⟩, rfl⟩

end Graph

/-! ### Gestures and graphs -/

namespace Gesture

/-- The node that a gesture names: the one it drags, or the one it draws a connection from. -/
def named? : Gesture → Option NodeId
  | .dragging id _ => some id
  | .connecting source _ => some source.node
  | _ => none

/-- Whether a gesture has hold of what it names: a drag of a node that is there, and a connection
that is drawn of the output dot of one. -/
def Holds (g : Graph) : Gesture → Prop
  | .dragging id _ => id ∈ g.nodeIds
  | .connecting source _ => ∃ n ∈ g.nodes, source = n.dot .output
  | _ => True

variable {gesture : Gesture} {g : Graph}

theorem Holds.mem {id : NodeId} (h : gesture.Holds g) (hid : gesture.named? = some id) :
    id ∈ g.nodeIds := by
  cases gesture with
  | dragging held grip =>
    cases hid
    exact h
  | connecting source pointer =>
    cases hid
    obtain ⟨n, hn, rfl⟩ := h
    exact List.mem_map_of_mem hn
  | _ => cases hid

/-- A gesture does not lose a node that calls keep, as long as they do not move what a connection is
drawn from. -/
theorem Holds.applyAll (h : gesture.Holds g) (hwf : g.WellFormed) {calls : List GraphCall}
    (hkeeps : ∀ id, gesture.named? = some id → Graph.Along (Graph.Keeps id) g calls)
    (hmoves : gesture.isConnecting = true → ∀ id origin, .moveNode id origin ∉ calls) :
    gesture.Holds (g.applyAll calls) := by
  cases gesture with
  | dragging id grip =>
    obtain ⟨n, hn, rfl⟩ := List.mem_map.mp h
    obtain ⟨m, hm, hretains⟩ := Graph.exists_retains hwf hn (hkeeps _ rfl)
    have hid : m.id = n.id := congrArg Identity.id hretains.identity
    exact hid ▸ List.mem_map_of_mem hm
  | connecting source pointer =>
    obtain ⟨n, hn, rfl⟩ := h
    obtain ⟨m, hm, hretains⟩ := Graph.exists_retains hwf hn (hkeeps _ rfl)
    have hid : m.id = n.id := congrArg Identity.id hretains.identity
    have hwidth : m.width = n.width := congrArg Identity.width hretains.identity
    have hheight : m.height = n.height := congrArg Identity.height hretains.identity
    have horigin : m.origin = n.origin := by
      by_contra hne
      obtain ⟨first, last, hcalls, -⟩ := hretains.origin hne
      refine hmoves rfl n.id m.origin ?_
      rw [hcalls]
      exact List.mem_append_right _ List.mem_cons_self
    refine ⟨m, hm, ?_⟩
    simp only [Node.dot, Node.anchor, Node.outputAnchor, hid, hwidth, hheight, horigin]
  | _ => trivial

end Gesture

/-- A dot under the pointer is one of a node that is there. -/
theorem Graph.exists_of_hit_dot {g : Graph} {config : EditorConfig} {hovered : Option ConnectionId}
    {p : Point} {d : Dot} (h : g.hit config hovered p = .dot d) :
    ∃ n ∈ g.nodes, d = n.dot d.kind := by
  cases hit_eq_iff.mp h with
  | output hlast => exact ⟨_, hlast.mem, rfl⟩
  | input hlast => exact ⟨_, hlast.mem, rfl⟩

/-- A node under the pointer is there, with its corner where the pointer finds it. -/
theorem Graph.exists_of_hit_node {g : Graph} {config : EditorConfig} {hovered : Option ConnectionId}
    {p origin : Point} {id : NodeId} (h : g.hit config hovered p = .node id origin) :
    ∃ n ∈ g.nodes, n.id = id ∧ n.origin = origin := by
  cases hit_eq_iff.mp h with
  | node _ hlast => exact ⟨_, hlast.mem, rfl, rfl⟩

theorem Graph.mem_of_hit_node {g : Graph} {config : EditorConfig} {hovered : Option ConnectionId}
    {p origin : Point} {id : NodeId} (h : g.hit config hovered p = .node id origin) :
    id ∈ g.nodeIds := by
  obtain ⟨n, hn, rfl, -⟩ := exists_of_hit_node h
  exact List.mem_map_of_mem hn

namespace Session

variable {s : Session} {request : Request} {id : NodeId}

/-- Whether a request takes out a node and leaves the gesture: it deletes the node, and nothing
touches it, or it is a tick that reports it as removed. -/
def TakesOut (s : Session) (request : Request) (id : NodeId) : Prop :=
  (s.deleted? request = some id ∧ s.graph.isTouched id = false) ∨
    ∃ now order, request = .tick now order ∧ id ∈ (s.graph.tickIn now order).2.removed

/-! ### The gesture after a request -/

theorem gesture_of_pose {s' : Session} (h : s'.pose = s.pose) : s'.gesture = s.gesture :=
  congrArg Prod.fst h

/-- An event leaves the gesture that the machine answers with. -/
theorem gesture_handle (s : Session) (event : InputEvent) :
    (s.handle event).gesture = (s.reply event).1 := by
  rw [handle_eq]
  exact congrArg Prod.fst (pose_applyAll _ _)

theorem gesture_cancelGesture (s : Session) : s.cancelGesture.gesture = .idle :=
  congrArg Prod.fst (pose_applyAll { s with gesture := .idle } s.gesture.cancel.2)

theorem gesture_setLocked (s : Session) (locked : Bool) :
    (s.setLocked locked).gesture = s.gesture ∨ (s.setLocked locked).gesture = .idle := by
  unfold setLocked
  dsimp only
  split_ifs
  · exact Or.inr (gesture_cancelGesture _)
  · exact Or.inl rfl

theorem gesture_zoom (s : Session) (direction : ZoomDirection) :
    ((s.zoom? direction).getD s).gesture = s.gesture :=
  frame_getD fun s' h ↦ by
    obtain ⟨view, -, rfl⟩ := Option.map_eq_some_iff.mp h
    rfl

theorem gesture_fit (s : Session) : (s.fit?.getD s).gesture = s.gesture :=
  frame_getD fun s' h ↦ by
    obtain ⟨view, -, rfl⟩ := Option.map_eq_some_iff.mp h
    rfl

theorem gesture_runShortcut (s : Session) (shortcut : Shortcut) :
    (s.runShortcut shortcut).gesture = s.gesture ∨ (s.runShortcut shortcut).gesture = .idle := by
  cases shortcut with
  | zoomIn => exact Or.inl (s.gesture_zoom .inward)
  | zoomOut => exact Or.inl (s.gesture_zoom .outward)
  | resetView => exact Or.inl rfl
  | fitView => exact Or.inl s.gesture_fit
  | toggleLock => exact s.gesture_setLocked _
  | deleteSelected => exact Or.inl (gesture_of_pose (frame_getD fun _ ↦ pose_deleteSelected?))
  | cancel => exact Or.inr s.gesture_cancelGesture

/-- Only an event can begin a gesture. -/
theorem gesture_serve_cases (s : Session) (request : Request) :
    (s.serve request).gesture = s.gesture ∨ (s.serve request).gesture = .idle ∨
      ∃ event, request = .input event ∧ (s.serve request).gesture = (s.reply event).1 := by
  cases request with
  | input event =>
    exact Or.inr (Or.inr ⟨event, rfl, s.gesture_handle event⟩)
  | key key modifiers =>
    dsimp only [serve, key?]
    cases Shortcut.resolve? key modifiers with
    | none => exact Or.inl rfl
    | some shortcut => exact (s.gesture_runShortcut shortcut).imp_right Or.inl
  | drop payload p => exact Or.inl (gesture_of_pose (pose_made fun _ ↦ pose_drop?))
  | zoom direction => exact Or.inl (s.gesture_zoom direction)
  | fit => exact Or.inl s.gesture_fit
  | setLocked locked => exact (s.gesture_setLocked locked).imp_right Or.inl
  | toggleLock => exact (s.gesture_setLocked _).imp_right Or.inl
  | connect source target => exact Or.inl (gesture_of_pose (pose_made fun _ ↦ pose_connect?))
  | deleteConnection id =>
    exact Or.inl (gesture_of_pose (frame_getD fun _ ↦ pose_deleteConnection?))
  | deleteNode id => exact Or.inl (gesture_of_pose (frame_getD fun _ ↦ pose_deleteNode?))
  | deleteSelected => exact Or.inl (gesture_of_pose (frame_getD fun _ ↦ pose_deleteSelected?))
  | clear => exact Or.inr (Or.inl (gesture_of_pose (pose_schedule _)))
  | setParam id name value => exact Or.inl (gesture_of_pose (s.pose_setParam id name value))
  | load text =>
    dsimp only [serve, load]
    cases s.graph.loadText text with
    | error fault => exact Or.inl rfl
    | ok graph => exact Or.inr (Or.inl rfl)
  | _ => exact Or.inl rfl

/-- Clearing gives the gesture up, and so does a load. -/
theorem gesture_of_clear_or_loads (h : request = .clear ∨ s.Loads request) :
    (s.serve request).gesture = .idle := by
  rcases h with rfl | hloads
  · exact gesture_of_pose (pose_schedule _)
  · cases request with
    | load text =>
      obtain ⟨s', hok⟩ := hloads
      have hserve : s.serve (.load text) = s' := by rw [serve, hok]; rfl
      rw [hserve]
      unfold load at hok
      cases hgraph : s.graph.loadText text with
      | error fault =>
        rw [hgraph] at hok
        cases hok
      | ok graph =>
        rw [hgraph] at hok
        cases hok
        rfl
    | _ => exact hloads.elim

/-- What takes out a node leaves the gesture as it is. -/
theorem TakesOut.gesture (h : s.TakesOut request id) : (s.serve request).gesture = s.gesture := by
  rcases h with ⟨hdeleted, -⟩ | ⟨now, order, rfl, -⟩
  · cases request with
    | deleteNode id => exact gesture_of_pose (frame_getD fun _ ↦ pose_deleteNode?)
    | deleteSelected => exact gesture_of_pose (frame_getD fun _ ↦ pose_deleteSelected?)
    | key key modifiers =>
      dsimp only [deleted?] at hdeleted
      split_ifs at hdeleted with hdelete
      rw [serve, key?, hdelete]
      change (s.deleteSelected?.getD s).gesture = s.gesture
      exact gesture_of_pose (frame_getD fun _ ↦ pose_deleteSelected?)
    | _ => cases hdeleted
  · rfl

/-! ### The graph after a request -/

/-- The calls of a request keep a node that the request does not take out. -/
theorem along_keeps_calls (hwf : s.graph.WellFormed) (hid : id ∈ s.graph.nodeIds)
    (hout : ¬ s.TakesOut request id) (hclear : request ≠ .clear) (hloads : ¬ s.Loads request) :
    Graph.Along (Graph.Keeps id) s.graph (s.calls request) := by
  have hcauses := s.causes_calls request
  generalize s.calls request = calls at hcauses
  cases hcauses with
  | spares h => exact Graph.along_keeps_of_spares h hid
  | @deletes other hdeleted =>
    refine ⟨⟨not_false, Graph.mem_nodeIds_deleteNode hid fun heq ↦ ?_⟩, trivial⟩
    subst heq
    by_contra huntouched
    exact hout (Or.inl ⟨hdeleted, by simpa using huntouched⟩)
  | clears h => exact absurd h hclear
  | @ticks now order h =>
    refine ⟨⟨not_false, (Graph.mem_nodeIds_tickIn hwf.tickable now order).mpr ⟨hid, ?_⟩⟩, trivial⟩
    exact fun hremoved ↦ hout (Or.inr ⟨now, order, h, hremoved⟩)
  | @loads text h =>
    subst h
    have hrefused : ∀ loaded, s.graph.loadDocument (Snapshot.parse? text) ≠ .ok loaded := by
      intro loaded hok
      rw [← Graph.loadText_eq] at hok
      exact hloads ⟨_, by rw [load, hok]; rfl⟩
    refine ⟨⟨fun ⟨loaded, hok⟩ ↦ hrefused loaded hok, ?_⟩, trivial⟩
    rw [Graph.apply]
    cases hres : s.graph.loadDocument (Snapshot.parse? text) with
    | error fault => exact hid
    | ok loaded => exact absurd hres (hrefused loaded)

theorem notMem_of_takesOut (hwf : s.graph.WellFormed) (hsimple : s.graph.Simple)
    (hid : id ∈ s.graph.nodeIds) (h : s.TakesOut request id) :
    id ∉ (s.serve request).graph.nodeIds := by
  rw [graph_serve]
  have hcauses := s.causes_calls request
  generalize s.calls request = calls at hcauses
  rcases h with ⟨hdeleted, huntouched⟩ | ⟨now, order, rfl, hremoved⟩
  · cases hcauses with
    | spares _ hnone => simp [hnone] at hdeleted
    | deletes hother =>
      obtain rfl := Option.some.inj (hother.symm.trans hdeleted)
      exact Graph.notMem_nodeIds_deleteNode hsimple hid huntouched
    | clears h => simp [h, deleted?] at hdeleted
    | ticks h => simp [h, deleted?] at hdeleted
    | loads h => simp [h, deleted?] at hdeleted
  · cases hcauses with
    | spares _ _ _ htick => exact absurd rfl (htick now order)
    | deletes hother => cases hother
    | clears h => cases h
    | ticks h =>
      cases h
      exact fun hmem ↦ ((Graph.mem_nodeIds_tickIn hwf.tickable now order).mp hmem).2 hremoved
    | loads h => cases h

/-! ### One request -/

/-- Whether the gesture has hold of what it names. -/
def Holding (s : Session) : Prop := s.gesture.Holds s.graph

theorem not_takesOut_input {event : InputEvent} : ¬ s.TakesOut (.input event) id := by
  rintro (⟨hdeleted, -⟩ | ⟨now, order, h, -⟩)
  · cases hdeleted
  · cases h

/-- A move that a request asks for is one of the node that is dragged. -/
theorem dragging_of_mem_calls {origin : Point} (h : .moveNode id origin ∈ s.calls request) :
    ∃ grip, s.gesture = .dragging id grip := by
  obtain ⟨event, -, hasked⟩ := mem_calls_moveNode h
  have hanswered : Action.moveNode id origin ∈
      (s.gesture.answer (.event event (s.under event) s.view)).2 := hasked
  exact (Gesture.fits_of_mem hanswered trivial).2

theorem Holding.kept (h : s.Holding) (hwf : s.graph.WellFormed)
    (hout : ∀ id, s.gesture.named? = some id → ¬ s.TakesOut request id)
    (hclear : request ≠ .clear) (hloads : ¬ s.Loads request) :
    s.gesture.Holds (s.serve request).graph := by
  rw [graph_serve]
  refine h.applyAll hwf (fun id hid ↦ ?_) fun hconnecting id origin hmove ↦ ?_
  · exact along_keeps_calls hwf (h.mem hid) (hout id hid) hclear hloads
  · obtain ⟨grip, hdrag⟩ := dragging_of_mem_calls hmove
    rw [hdrag] at hconnecting
    cases hconnecting

/-- What a press is on lies under the pointer. -/
theorem hit_of_isPressOn {event : InputEvent} {hit : Hit}
    (h : (Gesture.Input.event event (s.under event) s.view).IsPressOn hit) :
    ∃ p, s.hit p = hit := by
  cases event with
  | pointerDown p button modifiers =>
    cases button with
    | primary => exact ⟨p, h⟩
    | _ => exact h.elim
  | _ => exact h.elim

/-- A gesture that an event begins has hold of what lies under the pointer, and one that goes on has
hold of what it had. -/
theorem Holding.input (h : s.Holding) (hwf : s.graph.WellFormed) (event : InputEvent) :
    (s.reply event).1.Holds (s.serve (.input event)).graph := by
  have hkept : s.gesture.Holds (s.serve (.input event)).graph :=
    h.kept hwf (fun _ _ ↦ not_takesOut_input) nofun id
  have hgraph : (s.serve (.input event)).graph =
      s.graph.applyAll (s.graph.actionsCalls (s.reply event).2) := s.graph_handle event
  have hturn : Gesture.Turn s.gesture (.event event (s.under event) s.view) (s.reply event).1
      (s.reply event).2 := Gesture.turn_answer _ _
  rw [hgraph] at hkept ⊢
  generalize s.reply event = answer at hturn hkept
  obtain ⟨gesture, actions⟩ := answer
  dsimp only at hturn hkept ⊢
  cases hturn with
  | ends => trivial
  | pans first pointer => trivial
  | @takes id origin grip hpress =>
    obtain ⟨p, hhit⟩ := hit_of_isPressOn hpress
    have hmem : (Gesture.dragging id grip).Holds s.graph := Graph.mem_of_hit_node hhit
    refine hmem.applyAll hwf (fun other hother ↦ ?_) nofun
    exact Graph.along_keeps_of_spares (fun _ ↦ Graph.spares_of_mem_actionsCalls) (hmem.mem hother)
  | @draws start pointer hpress hkind hidle =>
    obtain ⟨p, hhit⟩ := hit_of_isPressOn hpress
    obtain ⟨n, hn, hdot⟩ := Graph.exists_of_hit_dot hhit
    exact ⟨n, hn, by rw [hdot, hkind]⟩
  | follows pointer hg =>
    rw [hg] at hkept
    exact hkept
  | keeps => exact hkept

/-- A gesture keeps hold of its node through a request that does not take the node out. -/
theorem Holding.serve (h : s.Holding) (hwf : s.graph.WellFormed)
    (hout : ∀ id, s.gesture.named? = some id → ¬ s.TakesOut request id) :
    (s.serve request).Holding := by
  unfold Holding
  rcases s.gesture_serve_cases request with hgesture | hgesture | ⟨event, rfl, hgesture⟩
  · by_cases hgone : request = .clear ∨ s.Loads request
    · rw [gesture_of_clear_or_loads hgone]
      trivial
    · obtain ⟨hclear, hloads⟩ := not_or.mp hgone
      rw [hgesture]
      exact h.kept hwf hout hclear hloads
  · rw [hgesture]
    trivial
  · rw [hgesture]
    exact h.input hwf event

/-! ### Several requests -/

/-- What several requests ask of the graph. -/
def callsAll (s : Session) : List Request → List GraphCall
  | [] => []
  | request :: rest => s.calls request ++ (s.serve request).callsAll rest

theorem graph_serveAll (s : Session) (requests : List Request) :
    (s.serveAll requests).graph = s.graph.applyAll (s.callsAll requests) := by
  induction requests generalizing s with
  | nil => rfl
  | cons request rest ih =>
    rw [serveAll_cons, ih, graph_serve, callsAll, Graph.applyAll_append]

/-- A gesture that goes on with the same node through some requests, none of which takes it out. -/
def Stays (id : NodeId) (s : Session) : List Request → Prop
  | [] => s.gesture.named? = some id
  | request :: rest =>
    s.gesture.named? = some id ∧ ¬ s.TakesOut request id ∧ Stays id (s.serve request) rest

theorem Stays.named {requests : List Request} (h : s.Stays id requests) :
    s.gesture.named? = some id := by
  cases requests with
  | nil => exact h
  | cons request rest => exact h.1

theorem Stays.along_keeps {requests : List Request} (h : s.Stays id requests)
    (hwf : s.graph.WellFormed) (hholding : s.Holding) :
    Graph.Along (Graph.Keeps id) s.graph (s.callsAll requests) := by
  induction requests generalizing s with
  | nil => trivial
  | cons request rest ih =>
    obtain ⟨hnamed, hout, hrest⟩ := h
    have hgone : ¬ (request = .clear ∨ s.Loads request) := fun hgone ↦ by
      have hidle := hrest.named
      rw [gesture_of_clear_or_loads hgone] at hidle
      cases hidle
    obtain ⟨hclear, hloads⟩ := not_or.mp hgone
    have hnext : (s.serve request).Holding := hholding.serve hwf fun other hother ↦ by
      obtain rfl := Option.some.inj (hother.symm.trans hnamed)
      exact hout
    have hwf' : (s.serve request).graph.WellFormed := by
      rw [graph_serve]
      exact hwf.applyAll _
    have hkeeps := ih hrest hwf' hnext
    rw [graph_serve] at hkeeps
    exact (along_keeps_calls hwf (hholding.mem hnamed) hout hclear hloads).append hkeeps

/-! ### Runs -/

theorem wellFormed_graph_run (config : EditorConfig) (requests : List Request) :
    (run config requests).graph.WellFormed := by
  obtain ⟨calls, hcalls⟩ := exists_calls_run config requests
  rw [hcalls]
  exact Graph.wellFormed_run config 1 calls

theorem simple_graph_run (config : EditorConfig) (requests : List Request) :
    (run config requests).graph.Simple := by
  obtain ⟨calls, hcalls⟩ := exists_calls_run config requests
  rw [hcalls]
  exact Graph.simple_run config 1 calls

/-- A gesture loses its node in the request that takes the node out. -/
theorem not_holding_of_takesOut (hwf : s.graph.WellFormed) (hsimple : s.graph.Simple)
    (h : s.Holding) (hid : s.gesture.named? = some id) (hout : s.TakesOut request id) :
    ¬ (s.serve request).Holding := fun hafter ↦
  notMem_of_takesOut hwf hsimple (h.mem hid) hout (hafter.mem (hout.gesture.symm ▸ hid))

/-- A line that is drawn from a node that is there begins at its output anchor. -/
theorem Holding.line (h : s.Holding) {start pointer : Point}
    (hline : s.overlay.line = some (start, pointer)) :
    ∃ n ∈ s.graph.nodes, start = n.outputAnchor := by
  obtain ⟨⟨source, stop⟩, hdrawn, hends⟩ := Option.map_eq_some_iff.mp hline
  cases hgesture : s.gesture with
  | connecting dot stop =>
    rw [Holding, hgesture] at h
    obtain ⟨n, hn, rfl⟩ := h
    rw [hgesture] at hdrawn
    cases hdrawn
    cases hends
    exact ⟨n, hn, rfl⟩
  | _ =>
    rw [hgesture] at hdrawn
    cases hdrawn

/-- All through a run the gesture has hold of a node that is there, if and only if no request takes
out the node that the gesture names. A line is then drawn from a node of the graph, a drag moves the
node it names and no other, and as long as the gesture goes on that node is the same one. -/
theorem holds_unless_taken_out (config : EditorConfig) (requests : List Request) :
    ((∀ first, first <+: requests → (run config first).Holding) ↔
      ∀ first request, first ++ [request] <+: requests →
        ∀ id, (run config first).gesture.named? = some id →
          ¬ (run config first).TakesOut request id) ∧
    ((run config requests).Holding →
      (∀ start pointer, (run config requests).overlay.line = some (start, pointer) →
        ∃ n ∈ (run config requests).graph.nodes, start = n.outputAnchor) ∧
      (∀ request id origin, .moveNode id origin ∈ (run config requests).calls request →
        ∃ grip, (run config requests).gesture = .dragging id grip) ∧
      ∀ id later, (run config requests).Stays id later →
        ∃ n ∈ (run config requests).graph.nodes, n.id = id ∧
          ∃ m ∈ (run config (requests ++ later)).graph.nodes,
            (run config requests).graph.Retains ((run config requests).callsAll later) n m) := by
  refine ⟨⟨fun hall first request hfirst id hid hout ↦ ?_, fun hnone first hfirst ↦ ?_⟩,
    fun h ↦ ⟨fun _ _ ↦ h.line, fun _ _ _ ↦ dragging_of_mem_calls, fun id later hstays ↦ ?_⟩⟩
  · have hbefore := hall _ ((List.prefix_append _ _).trans hfirst)
    have hnext := hall _ hfirst
    rw [run_concat] at hnext
    exact not_holding_of_takesOut (wellFormed_graph_run config first)
      (simple_graph_run config first) hbefore hid hout hnext
  · -- One request after the other; what came before is a beginning of the run as well.
    induction first using List.reverseRecOn with
    | nil => trivial
    | append_singleton first request ih =>
      rw [run_concat]
      exact (ih ((List.prefix_append _ _).trans hfirst)).serve (wellFormed_graph_run config first)
        (hnone first request hfirst)
  · have hwf := wellFormed_graph_run config requests
    obtain ⟨n, hn, rfl⟩ := List.mem_map.mp (h.mem hstays.named)
    obtain ⟨m, hm, hretains⟩ := Graph.exists_retains hwf hn (hstays.along_keeps hwf h)
    rw [← graph_serveAll, ← run_append] at hm
    exact ⟨n, hn, rfl, m, hm, hretains⟩

/-- A node is dropped, and a connection is drawn from it. -/
theorem holds_unless_taken_out_drawn :
    ∃ (requests later : List Request) (id : NodeId), (run .standard requests).Holding ∧
      (∃ n ∈ (run .standard requests).graph.nodes,
        (run .standard requests).overlay.line = some (n.outputAnchor, ⟨0, 300⟩)) ∧
      (run .standard requests).Stays id later ∧
        ∃ n ∈ (run .standard requests).graph.nodes, n.id = id ∧
          ∃ m ∈ (run .standard (requests ++ later)).graph.nodes,
            (run .standard requests).graph.Retains
              ((run .standard requests).callsAll later) n m := by
  let payload : String := "\x7b\"type\":\"Input\",\"label\":\"\"\x7d"
  let requests : List Request :=
    [.drop payload ⟨0, 0⟩, .input (.pointerDown ⟨0, 43⟩ .primary {}),
      .input (.pointerMove ⟨0, 300⟩ {})]
  let later : List Request := [.input (.pointerMove ⟨50, 500⟩ {})]
  have hnone : ∀ first request, first ++ [request] <+: requests →
      ∀ id, (run .standard first).gesture.named? = some id →
        ¬ (run .standard first).TakesOut request id := by
    intro first request hfirst id _
    have hmem : request ∈ requests := hfirst.subset (by simp)
    simp only [requests, List.mem_cons, List.not_mem_nil, or_false] at hmem
    rcases hmem with rfl | rfl | rfl
    · rintro (⟨hdeleted, -⟩ | ⟨now, order, h, -⟩)
      · cases hdeleted
      · cases h
    · exact not_takesOut_input
    · exact not_takesOut_input
  have hholding :=
    (holds_unless_taken_out .standard requests).1.mpr hnone requests (List.prefix_refl _)
  obtain ⟨hline, -, hsame⟩ := (holds_unless_taken_out .standard requests).2 hholding
  have hdrawn : (run .standard requests).overlay.line = some (⟨0, 43⟩, ⟨0, 300⟩) := by
    decide +kernel
  obtain ⟨n, hn, hstart⟩ := hline _ _ hdrawn
  have hnamed : (run .standard requests).gesture.named? = some ⟨"Input-1"⟩ := by decide +kernel
  have hlast : ((run .standard requests).serve
      (.input (.pointerMove ⟨50, 500⟩ {}))).gesture.named? = some ⟨"Input-1"⟩ := by decide +kernel
  have hstays : (run .standard requests).Stays ⟨"Input-1"⟩ later :=
    ⟨hnamed, not_takesOut_input, hlast⟩
  exact ⟨requests, later, ⟨"Input-1"⟩, hholding, ⟨n, hn, hstart ▸ hdrawn⟩, hstays,
    hsame _ _ hstays⟩

/-- A node is deleted while it is dragged, and the next move takes hold of another node that was
dropped far away and was given its name. -/
theorem drag_of_another_node :
    ∃ (first middle : List Request) (last : Request) (id : NodeId) (grip : Point),
      (run .standard first).gesture = .dragging id grip ∧
      (run .standard first).graph.contains id = false ∧
      ((run .standard (first ++ middle)).graph.node? id).map Node.origin = some ⟨1930, 1957⟩ ∧
      ((run .standard (first ++ middle ++ [last])).graph.node? id).map Node.origin =
        some ⟨10, 10⟩ := by
  let payload : String := "\x7b\"type\":\"Input\",\"label\":\"\"\x7d"
  let document : String :=
    "\x7b\"nodes\":[\x7b\"id\":\"Input-2\",\"type\":\"Input\",\"label\":\"\",\"x\":0,\"y\":0," ++
      "\"width\":140,\"height\":86\x7d],\"connections\":[]\x7d"
  exact ⟨[.load document, .input (.pointerDown ⟨50, 50⟩ .primary {}), .deleteNode ⟨"Input-2"⟩],
    [.drop payload ⟨1000, 1000⟩, .drop payload ⟨2000, 2000⟩], .input (.pointerMove ⟨60, 60⟩ {}),
    ⟨"Input-2"⟩, ⟨50, 50⟩, by decide +kernel, by decide +kernel, by decide +kernel,
    by decide +kernel⟩

end Session

end LayerCanvas
