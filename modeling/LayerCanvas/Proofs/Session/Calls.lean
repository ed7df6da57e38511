import LayerCanvas.Proofs.Session.Change
import LayerCanvas.Proofs.Session.View

/-!
The graph of a session. What a request asks of the graph is listed, call by call, so that the graph
after a request is the graph after its calls. Each kind of call is asked for by one kind of request
or of action only, apart from deletions, so one inversion tells where a call comes from.
-/

set_option autoImplicit false
set_option relaxedAutoImplicit false

namespace LayerCanvas

/-- A call of a session on its graph. -/
abbrev GraphCall := Call Float32 Float

namespace Graph

/-- What connecting two nodes from anchor to anchor asks of the graph. -/
def connectCalls (g : Graph) (source target : NodeId) : List GraphCall :=
  match g.node? source, g.node? target with
  | some start, some stop => [.addConnection source target start.outputAnchor stop.inputAnchor]
  | _, _ => []

/-- What an action asks of the graph. -/
def actionCalls (g : Graph) : Action → List GraphCall
  | .bringToFront id => [.bringToFront id]
  | .moveNode id origin => [.moveNode id origin]
  | .connect source target => g.connectCalls source target
  | .deleteConnection id => [.deleteConnection id]
  | _ => []

/-- What several actions ask of the graph, one after the other. -/
def actionsCalls (g : Graph) : List Action → List GraphCall
  | [] => []
  | action :: rest =>
    g.actionCalls action ++ (g.applyAll (g.actionCalls action)).actionsCalls rest

end Graph

namespace Session

variable {s s' : Session}

/-- Where a node goes that is dropped on a point of the screen. -/
def dropOrigin (s : Session) (p : Point) : Point :=
  ⟨(s.view.transform.toCanvas p).x - s.config.nodeWidth / 2,
    (s.view.transform.toCanvas p).y - s.config.nodeHeight / 2⟩

/-- What a drop asks of the graph. -/
def dropCalls (s : Session) (payload : String) (p : Point) : List GraphCall :=
  match Layer.parse? payload with
  | none => []
  | some layer =>
    if (s.view.transform.toCanvas p).isFinite then [.addNode layer (s.dropOrigin p)] else []

/-- What deleting the selected node asks of the graph. -/
def deleteSelectedCalls (s : Session) : List GraphCall := s.selected.toList.map .deleteNode

/-- What a request asks of the graph. -/
def calls (s : Session) : Request → List GraphCall
  | .input event => s.graph.actionsCalls (s.reply event).2
  | .key key modifiers =>
    if Shortcut.resolve? key modifiers = some .deleteSelected then s.deleteSelectedCalls else []
  | .drop payload p => s.dropCalls payload p
  | .connect source target => s.graph.connectCalls source target
  | .deleteConnection id => [.deleteConnection id]
  | .deleteNode id => [.deleteNode id]
  | .deleteSelected => s.deleteSelectedCalls
  | .clear => [.clear]
  | .setParam id name value => [.setParam id name value]
  | .tick now order => [.tick now order]
  | .load text => [.loadDocument (Snapshot.parse? text)]
  | .drawNames count => [.drawNames count]
  | _ => []

theorem graph_drop (s : Session) (payload : String) (p : Point) :
    (((s.drop? payload p).map Prod.fst).getD s).graph =
      s.graph.applyAll (s.dropCalls payload p) := by
  unfold drop? dropCalls
  cases Layer.parse? payload with
  | none => rfl
  | some layer =>
    cases hfinite : (s.view.transform.toCanvas p).isFinite with
    | false => simp [hfinite]
    | true =>
      simp only [hfinite]
      rfl

theorem graph_connect (s : Session) (source target : NodeId) :
    (((s.connect? source target).map Prod.fst).getD s).graph =
      s.graph.applyAll (s.graph.connectCalls source target) := by
  unfold connect? Graph.connectCalls
  cases s.graph.node? source with
  | none => rfl
  | some start =>
    cases s.graph.node? target with
    | none => rfl
    | some stop =>
      cases hmade : s.graph.addConnection? source target start.outputAnchor stop.inputAnchor <;>
        simp [hmade, Graph.apply]

theorem graph_deleteConnection (s : Session) (id : ConnectionId) :
    ((s.deleteConnection? id).getD s).graph = s.graph.deleteConnection id := by
  unfold deleteConnection? Graph.deleteConnection
  cases s.graph.deleteConnection? id <;> simp

theorem graph_deleteNode (s : Session) (id : NodeId) :
    ((s.deleteNode? id).getD s).graph = s.graph.deleteNode id := by
  unfold deleteNode? Graph.deleteNode
  cases s.graph.deleteNode? id <;> simp

theorem graph_deleteSelected (s : Session) :
    (s.deleteSelected?.getD s).graph = s.graph.applyAll s.deleteSelectedCalls := by
  unfold deleteSelected? deleteSelectedCalls
  cases s.selected with
  | none => rfl
  | some id => exact s.graph_deleteNode id

theorem graph_apply (s : Session) (action : Action) :
    (s.apply action).graph = s.graph.applyAll (s.graph.actionCalls action) := by
  cases action with
  | connect source target => exact s.graph_connect source target
  | deleteConnection id => exact s.graph_deleteConnection id
  | _ => rfl

theorem graph_applyAll (s : Session) (actions : List Action) :
    (s.applyAll actions).graph = s.graph.applyAll (s.graph.actionsCalls actions) := by
  induction actions generalizing s with
  | nil => rfl
  | cons action rest ih =>
    have hrest := ih (s.apply action)
    rw [s.graph_apply action] at hrest
    rw [Graph.actionsCalls, Graph.applyAll_append]
    exact hrest

theorem graph_handle (s : Session) (event : InputEvent) :
    (s.handle event).graph = s.graph.applyAll (s.calls (.input event)) := by
  rw [handle_eq]
  exact graph_applyAll _ _

theorem graph_of_content (h : s'.content = s.content) : s'.graph = s.graph := congrArg Prod.fst h

theorem graph_zoom (s : Session) (direction : ZoomDirection) :
    ((s.zoom? direction).getD s).graph = s.graph :=
  frame_getD fun _ h ↦ graph_of_content (content_zoom? h)

theorem graph_fit (s : Session) : (s.fit?.getD s).graph = s.graph :=
  frame_getD fun _ h ↦ graph_of_content (content_fit? h)

theorem graph_runShortcut (s : Session) (shortcut : Shortcut) :
    (s.runShortcut shortcut).graph =
      s.graph.applyAll (if shortcut = .deleteSelected then s.deleteSelectedCalls else []) := by
  cases shortcut with
  | zoomIn => exact s.graph_zoom .inward
  | zoomOut => exact s.graph_zoom .outward
  | resetView => rfl
  | fitView => exact s.graph_fit
  | toggleLock => exact graph_of_content (s.content_setLocked _)
  | deleteSelected => exact s.graph_deleteSelected
  | cancel =>
    change s.cancelGesture.graph = s.graph
    exact graph_of_content s.content_cancelGesture

theorem graph_setParam (s : Session) (id : NodeId) (name : String) (value : ParamValue) :
    ((s.setParam id name value).toOption.getD s).graph =
      s.graph.apply (.setParam id name value) := by
  unfold setParam
  dsimp only [Graph.apply]
  cases s.graph.setParam id name value <;> rfl

theorem graph_load (s : Session) (text : String) :
    ((s.load text).toOption.getD s).graph =
      s.graph.apply (.loadDocument (Snapshot.parse? text)) := by
  unfold load
  rw [Graph.loadText_eq]
  dsimp only [Graph.apply]
  cases s.graph.loadDocument (Snapshot.parse? text) <;> rfl

/-- The graph after a request is the graph after what the request asks of it. -/
theorem graph_serve (s : Session) (request : Request) :
    (s.serve request).graph = s.graph.applyAll (s.calls request) := by
  cases request with
  | input event => exact s.graph_handle event
  | key key modifiers =>
    dsimp only [serve, key?, calls]
    cases Shortcut.resolve? key modifiers with
    | none => rfl
    | some shortcut => simpa using s.graph_runShortcut shortcut
  | drop payload p => exact s.graph_drop payload p
  | zoom direction => exact s.graph_zoom direction
  | fit => exact s.graph_fit
  | setLocked locked => exact graph_of_content (s.content_setLocked locked)
  | toggleLock => exact graph_of_content (s.content_setLocked _)
  | connect source target => exact s.graph_connect source target
  | deleteConnection id => exact s.graph_deleteConnection id
  | deleteNode id => exact s.graph_deleteNode id
  | deleteSelected => exact s.graph_deleteSelected
  | clear => exact graph_schedule _
  | setParam id name value => exact s.graph_setParam id name value
  | load text => exact s.graph_load text
  | _ => rfl

end Session

/-! ### Where a call comes from -/

/-- The calls that an action asks for. -/
inductive Action.Makes : Action → GraphCall → Prop
  | raises (id : NodeId) : Makes (.bringToFront id) (.bringToFront id)
  | moves (id : NodeId) (origin : Point) : Makes (.moveNode id origin) (.moveNode id origin)
  | joins (source target : NodeId) (start stop : Point) :
    Makes (.connect source target) (.addConnection source target start stop)
  | deletes (id : ConnectionId) : Makes (.deleteConnection id) (.deleteConnection id)

namespace Graph

theorem makes_of_mem_connectCalls {g : Graph} {source target : NodeId} {call : GraphCall}
    (h : call ∈ g.connectCalls source target) : Action.Makes (.connect source target) call := by
  unfold connectCalls at h
  split at h
  · rw [List.mem_singleton.mp h]
    exact .joins ..
  · cases h

theorem exists_makes_of_mem_actionsCalls {g : Graph} {actions : List Action} {call : GraphCall}
    (h : call ∈ g.actionsCalls actions) : ∃ action ∈ actions, action.Makes call := by
  induction actions generalizing g with
  | nil => cases h
  | cons action rest ih =>
    rcases List.mem_append.mp h with h | h
    · refine ⟨action, List.mem_cons_self, ?_⟩
      cases action with
      | bringToFront id => exact List.mem_singleton.mp h ▸ .raises id
      | moveNode id origin => exact List.mem_singleton.mp h ▸ .moves id origin
      | connect source target => exact makes_of_mem_connectCalls h
      | deleteConnection id => exact List.mem_singleton.mp h ▸ .deletes id
      | _ => cases h
    · obtain ⟨other, hother, hmakes⟩ := ih h
      exact ⟨other, List.mem_cons_of_mem _ hother, hmakes⟩

end Graph

namespace Session

variable {s : Session} {request : Request} {call : GraphCall}

/-- The node that a request deletes. -/
def deleted? (s : Session) : Request → Option NodeId
  | .deleteNode id => some id
  | .deleteSelected => s.selected
  | .key key modifiers =>
    if Shortcut.resolve? key modifiers = some .deleteSelected then s.selected else none
  | _ => none

/-- The calls that a request asks for. -/
inductive Makes (s : Session) : Request → GraphCall → Prop
  | acts {event : InputEvent} {action : Action} {call : GraphCall}
    (h : action ∈ (s.reply event).2) (hmakes : action.Makes call) : Makes s (.input event) call
  | drops {payload : String} {p : Point} {layer : Layer}
    (hlayer : Layer.parse? payload = some layer)
    (hfinite : (s.view.transform.toCanvas p).isFinite = true) :
    Makes s (.drop payload p) (.addNode layer (s.dropOrigin p))
  | joins (source target : NodeId) (start stop : Point) :
    Makes s (.connect source target) (.addConnection source target start stop)
  | deletes {request : Request} {id : NodeId} (h : s.deleted? request = some id) :
    Makes s request (.deleteNode id)
  | parts (id : ConnectionId) : Makes s (.deleteConnection id) (.deleteConnection id)
  | clears : Makes s .clear .clear
  | sets (id : NodeId) (name : String) (value : ParamValue) :
    Makes s (.setParam id name value) (.setParam id name value)
  | ticks (now : Float) (order : SampleOrder Float32) : Makes s (.tick now order) (.tick now order)
  | loads (text : String) : Makes s (.load text) (.loadDocument (Snapshot.parse? text))
  | draws (count : Nat) : Makes s (.drawNames count) (.drawNames count)

theorem calls_of_deleted {id : NodeId} (h : s.deleted? request = some id) :
    s.calls request = [.deleteNode id] := by
  cases request with
  | deleteNode other =>
    cases h
    rfl
  | deleteSelected =>
    rw [calls, deleteSelectedCalls, show s.selected = some id from h]
    rfl
  | key key modifiers =>
    dsimp only [deleted?] at h
    split_ifs at h with hdelete
    rw [calls, if_pos hdelete, deleteSelectedCalls, h]
    rfl
  | _ => cases h

theorem makes_of_mem_calls (h : call ∈ s.calls request) : s.Makes request call := by
  -- Several requests delete the selected node, so that is settled before the request is looked at.
  cases hdeleted : s.deleted? request with
  | some id =>
    rw [calls_of_deleted hdeleted, List.mem_singleton] at h
    exact h ▸ .deletes hdeleted
  | none =>
    cases request with
    | input event =>
      obtain ⟨action, haction, hmakes⟩ := Graph.exists_makes_of_mem_actionsCalls h
      exact .acts haction hmakes
    | drop payload p =>
      dsimp only [calls, dropCalls] at h
      cases hlayer : Layer.parse? payload with
      | none => simp [hlayer] at h
      | some layer =>
        rw [hlayer] at h
        dsimp only at h
        split_ifs at h with hfinite
        · exact List.mem_singleton.mp h ▸ .drops hlayer hfinite
        · cases h
    | key key modifiers =>
      dsimp only [calls, deleted?] at h hdeleted
      split_ifs at h hdeleted with hdelete
      · rw [deleteSelectedCalls, hdeleted] at h
        cases h
      · cases h
    | deleteSelected =>
      rw [calls, deleteSelectedCalls, show s.selected = none from hdeleted] at h
      cases h
    | deleteNode id => cases hdeleted
    | connect source target =>
      cases Graph.makes_of_mem_connectCalls h
      exact .joins ..
    | deleteConnection id => exact List.mem_singleton.mp h ▸ .parts id
    | clear => exact List.mem_singleton.mp h ▸ .clears
    | setParam id name value => exact List.mem_singleton.mp h ▸ .sets id name value
    | tick now order => exact List.mem_singleton.mp h ▸ .ticks now order
    | load text => exact List.mem_singleton.mp h ▸ .loads text
    | drawNames count => exact List.mem_singleton.mp h ▸ .draws count
    | _ => cases h

/-- Only a drop places a node. -/
theorem mem_calls_addNode {layer : Layer} {origin : Point}
    (h : .addNode layer origin ∈ s.calls request) :
    ∃ payload p, request = .drop payload p ∧ Layer.parse? payload = some layer ∧
      (s.view.transform.toCanvas p).isFinite = true ∧ origin = s.dropOrigin p := by
  cases makes_of_mem_calls h with
  | acts _ hmakes => cases hmakes
  | drops hlayer hfinite => exact ⟨_, _, rfl, hlayer, hfinite, rfl⟩

/-- Only an event moves nodes, and only those that the machine asks to be moved. -/
theorem mem_calls_moveNode {id : NodeId} {origin : Point}
    (h : .moveNode id origin ∈ s.calls request) :
    ∃ event, request = .input event ∧ .moveNode id origin ∈ (s.reply event).2 := by
  cases makes_of_mem_calls h with
  | acts haction hmakes =>
    cases hmakes
    exact ⟨_, rfl, haction⟩

end Session

/-! ### Taking out -/

/-- The calls that a session makes and that take nothing out. -/
def Call.Spares {C R : Type} : Call C R → Prop
  | .addNode _ _ | .bringToFront _ | .moveNode _ _ | .setParam _ _ _ | .addConnection _ _ _ _
  | .deleteConnection _ | .drawNames _ => True
  | _ => False

theorem Action.Makes.spares {action : Action} {call : GraphCall} (h : action.Makes call) :
    call.Spares := by
  cases h <;> trivial

theorem Graph.spares_of_mem_actionsCalls {g : Graph} {actions : List Action} {call : GraphCall}
    (h : call ∈ g.actionsCalls actions) : call.Spares := by
  obtain ⟨action, -, hmakes⟩ := exists_makes_of_mem_actionsCalls h
  exact hmakes.spares

namespace Session

variable {s : Session} {request : Request}

/-- Whether a request puts a loaded graph in the place of the present one. -/
def Loads (s : Session) : Request → Prop
  | .load text => ∃ s', s.load text = .ok s'
  | _ => False

/-- Each request that can take something out asks for one call that does, and for nothing else. -/
inductive Causes (s : Session) (request : Request) : List GraphCall → Prop
  | spares {calls : List GraphCall} (h : ∀ call ∈ calls, call.Spares)
    (hdeleted : s.deleted? request = none) (hclear : request ≠ .clear)
    (htick : ∀ now order, request ≠ .tick now order) (hload : ∀ text, request ≠ .load text) :
    Causes s request calls
  | deletes {id : NodeId} (h : s.deleted? request = some id) : Causes s request [.deleteNode id]
  | clears (h : request = .clear) : Causes s request [.clear]
  | ticks {now : Float} {order : SampleOrder Float32} (h : request = .tick now order) :
    Causes s request [.tick now order]
  | loads {text : String} (h : request = .load text) :
    Causes s request [.loadDocument (Snapshot.parse? text)]

theorem causes_calls (s : Session) (request : Request) : s.Causes request (s.calls request) := by
  cases hdeleted : s.deleted? request with
  | some id =>
    rw [calls_of_deleted hdeleted]
    exact .deletes hdeleted
  | none =>
    have hspares (hclear : request ≠ .clear) (htick : ∀ now order, request ≠ .tick now order)
        (hload : ∀ text, request ≠ .load text) : s.Causes request (s.calls request) := by
      refine .spares (fun call h ↦ ?_) hdeleted hclear htick hload
      cases makes_of_mem_calls h with
      | acts _ hmakes => exact hmakes.spares
      | deletes hother =>
        rw [hdeleted] at hother
        cases hother
      | clears => exact absurd rfl hclear
      | ticks now order => exact absurd rfl (htick now order)
      | loads text => exact absurd rfl (hload text)
      | _ => trivial
    cases request with
    | clear => exact .clears rfl
    | tick now order => exact .ticks rfl
    | load text => exact .loads rfl
    | _ => exact hspares nofun nofun nofun

end Session

end LayerCanvas
