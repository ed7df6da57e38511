import LayerCanvas.Proofs.InPlace.Graph
import LayerCanvas.Proofs.Session.Change

/-!
What a session does when it is asked for something it may refuse, as routines that work in place on
its graph, its view and its own fields. Every one of them is atomic, so that a refused request
leaves the graph with its animations and serials, the view with its lock and its pan, the gesture,
what is selected and pointed at, and the number of frames asked for as they were.
-/

set_option autoImplicit false
set_option relaxedAutoImplicit false

namespace LayerCanvas

open InPlace

/-! ### The view -/

namespace Viewport

def zoomInPlace (direction : ZoomDirection) (center : Option Point) :
    InPlace Viewport Refusal Unit := do
  let v ← get
  refuseIf v.locked .silent
  let old := v.transform.scale
  let new := v.clampScale (direction.advance old v.config.scaleStep)
  refuseIf (new == old) .silent
  match center with
  | none => pure ()
  | some c =>
    let ratio := new / old
    let x := c.x - (c.x - v.transform.offset.x) * ratio
    modify fun v ↦ { v with transform.offset.x := x }
    let y := c.y - (c.y - v.transform.offset.y) * ratio
    modify fun v ↦ { v with transform.offset.y := y }
  modify fun v ↦ { v with transform.scale := new }

theorem atomic_zoomInPlace (direction : ZoomDirection) (center : Option Point) :
    (zoomInPlace direction center).Atomic := by
  refine looks_get.bind_atomic fun _ ↦ (looks_refuseIf _ _).bind_atomic fun _ ↦
    (looks_refuseIf _ _).bind_atomic fun _ ↦ Completes.atomic ?_
  cases center with
  | none => exact completes_modify _
  | some c =>
    exact (completes_modify _).bind fun _ ↦ (completes_modify _).bind fun _ ↦ completes_modify _

theorem result_zoomInPlace (direction : ZoomDirection) (center : Option Point) (v : Viewport) :
    (zoomInPlace direction center).result v =
      (silently (v.zoom? direction center)).map fun v' ↦ ((), v') := by
  unfold zoom? zoomInPlace
  simp only [result_get_bind, result_refuseIf_bind]
  cases hlocked : v.locked
  · cases v.clampScale (direction.advance v.transform.scale v.config.scaleStep) ==
        v.transform.scale
    · cases center <;> simp [hlocked, silently, Except.map]
    · simp [silently, Except.map]
  · simp [silently, Except.map]

def fitInPlace (nodes : List Node) (width height : Float32) : InPlace Viewport Refusal Unit := do
  let v ← get
  refuseIf v.locked .silent
  let bounds ← demand (v.boundsOf? nodes) .silent
  let fitting := Scalar.smaller (width / bounds.width) (height / bounds.height)
  let scale := v.clampScale (fitting * v.config.fitMargin)
  let center := bounds.center
  let offset := ⟨width / 2 - center.x * scale, height / 2 - center.y * scale⟩
  modify fun v ↦ { v with transform := ⟨offset, scale⟩ }

theorem atomic_fitInPlace (nodes : List Node) (width height : Float32) :
    (fitInPlace nodes width height).Atomic :=
  looks_get.bind_atomic fun _ ↦ (looks_refuseIf _ _).bind_atomic fun _ ↦
    (looks_demand _ _).bind_atomic fun _ ↦ (completes_modify _).atomic

theorem result_fitInPlace (nodes : List Node) (width height : Float32) (v : Viewport) :
    (fitInPlace nodes width height).result v =
      (silently (v.fit? nodes width height)).map fun v' ↦ ((), v') := by
  unfold fit? fitInPlace
  simp only [result_get_bind, result_refuseIf_bind, result_demand_bind, result_modify]
  cases v.locked
  · cases v.boundsOf? nodes <;> simp [silently, Except.map]
  · simp [silently, Except.map]

end Viewport

namespace Session

/-- The graph of a session. -/
def graphPart : Part Session Graph := ⟨graph, fun graph s ↦ { s with graph }, fun _ ↦ rfl⟩

/-- The view of a session. -/
def viewPart : Part Session Viewport := ⟨view, fun view s ↦ { s with view }, fun _ ↦ rfl⟩

theorem result_within_graph {α : Type} (x : InPlace Graph Refusal α) (s : Session) :
    (within graphPart x).result s =
      (x.result s.graph).map fun seen ↦ (seen.1, { s with graph := seen.2 }) :=
  result_within graphPart x s

theorem result_within_view {α : Type} (x : InPlace Viewport Refusal α) (s : Session) :
    (within viewPart x).result s =
      (x.result s.view).map fun seen ↦ (seen.1, { s with view := seen.2 }) :=
  result_within viewPart x s

/-! ### Making -/

def dropInPlace (payload : String) (p : Point) : InPlace Session Refusal NodeId := do
  let layer ← demand (Layer.parse? payload) .silent
  let s ← get
  let center := s.view.transform.toCanvas p
  refuseIf (!center.isFinite) .silent
  let origin := ⟨center.x - s.config.nodeWidth / 2, center.y - s.config.nodeHeight / 2⟩
  within graphPart (Graph.addNodeInPlace layer origin)

theorem atomic_dropInPlace (payload : String) (p : Point) : (dropInPlace payload p).Atomic :=
  (looks_demand _ _).bind_atomic fun _ ↦ looks_get.bind_atomic fun _ ↦
    (looks_refuseIf _ _).bind_atomic fun _ ↦
      ((Graph.completes_addNodeInPlace _ _).within graphPart).atomic

theorem result_dropInPlace (payload : String) (p : Point) (s : Session) :
    (dropInPlace payload p).result s =
      (silently (s.drop? payload p)).map fun made ↦ (made.2, made.1) := by
  unfold drop? dropInPlace
  simp only [result_demand_bind, result_get_bind, result_refuseIf_bind, result_within_graph,
    Graph.result_addNodeInPlace]
  cases Layer.parse? payload with
  | none => rfl
  | some layer =>
    cases (s.view.transform.toCanvas p).isFinite <;> simp [silently, Except.map]

def connectInPlace (source target : NodeId) : InPlace Session Refusal ConnectionId := do
  let s ← get
  let start ← demand (s.graph.node? source) .silent
  let stop ← demand (s.graph.node? target) .silent
  let id ← within graphPart
    (Graph.addConnectionInPlace source target start.outputAnchor stop.inputAnchor)
  modify schedule
  return id

theorem atomic_connectInPlace (source target : NodeId) : (connectInPlace source target).Atomic :=
  looks_get.bind_atomic fun _ ↦ (looks_demand _ _).bind_atomic fun _ ↦
    (looks_demand _ _).bind_atomic fun _ ↦
      ((Graph.atomic_addConnectionInPlace _ _ _ _).within graphPart).bind_completes fun _ ↦
        (completes_modify _).bind fun _ ↦ completes_pure _

theorem result_connectInPlace (source target : NodeId) (s : Session) :
    (connectInPlace source target).result s =
      (silently (s.connect? source target)).map fun made ↦ (made.2, made.1) := by
  unfold connect? connectInPlace
  simp only [result_get_bind, result_demand_bind]
  cases s.graph.node? source with
  | none => rfl
  | some start =>
    cases s.graph.node? target with
    | none => rfl
    | some stop =>
      simp only [Option.elim_some, result_bind, result_within_graph,
        Graph.result_addConnectionInPlace]
      cases hmade : s.graph.addConnection? source target start.outputAnchor stop.inputAnchor <;>
        simp [hmade, silently, Except.map, Except.bind]

def setParamInPlace (id : NodeId) (name : String) (value : ParamValue) :
    InPlace Session Refusal Unit :=
  within graphPart (Graph.setParamInPlace id name value)

theorem atomic_setParamInPlace (id : NodeId) (name : String) (value : ParamValue) :
    (setParamInPlace id name value).Atomic :=
  (Graph.atomic_setParamInPlace id name value).within graphPart

theorem result_setParamInPlace (id : NodeId) (name : String) (value : ParamValue) (s : Session) :
    (setParamInPlace id name value).result s =
      ((s.setParam id name value).mapError Refusal.param).map fun s' ↦ ((), s') := by
  rw [setParamInPlace, result_within_graph, Graph.result_setParamInPlace, setParam]
  cases s.graph.setParam id name value <;> rfl

/-! ### Deleting -/

def deleteConnectionInPlace (id : ConnectionId) : InPlace Session Refusal Unit := do
  within graphPart (Graph.deleteConnectionInPlace id)
  modify fun s ↦ { s with hovered := if s.hovered = some id then none else s.hovered }
  modify schedule

theorem atomic_deleteConnectionInPlace (id : ConnectionId) : (deleteConnectionInPlace id).Atomic :=
  ((Graph.atomic_deleteConnectionInPlace id).within graphPart).bind_completes fun _ ↦
    (completes_modify _).bind fun _ ↦ completes_modify _

theorem result_deleteConnectionInPlace (id : ConnectionId) (s : Session) :
    (deleteConnectionInPlace id).result s =
      (silently (s.deleteConnection? id)).map fun s' ↦ ((), s') := by
  rw [deleteConnectionInPlace, result_bind, result_within_graph,
    Graph.result_deleteConnectionInPlace, deleteConnection?]
  cases s.graph.deleteConnection? id <;> rfl

def deleteNodeInPlace (id : NodeId) : InPlace Session Refusal Unit := do
  within graphPart (Graph.deleteNodeInPlace id)
  modify fun s ↦ { s with selected := if s.selected = some id then none else s.selected }
  modify fun s ↦ { s with hovered := s.liveHover }
  modify schedule

theorem atomic_deleteNodeInPlace (id : NodeId) : (deleteNodeInPlace id).Atomic :=
  ((Graph.atomic_deleteNodeInPlace id).within graphPart).bind_completes fun _ ↦
    (completes_modify _).bind fun _ ↦ (completes_modify _).bind fun _ ↦ completes_modify _

theorem result_deleteNodeInPlace (id : NodeId) (s : Session) :
    (deleteNodeInPlace id).result s = (silently (s.deleteNode? id)).map fun s' ↦ ((), s') := by
  rw [deleteNodeInPlace, result_bind, result_within_graph, Graph.result_deleteNodeInPlace,
    deleteNode?]
  cases s.graph.deleteNode? id <;> rfl

def deleteSelectedInPlace : InPlace Session Refusal Unit := do
  let s ← get
  let id ← demand s.selected .silent
  deleteNodeInPlace id

theorem atomic_deleteSelectedInPlace : deleteSelectedInPlace.Atomic :=
  looks_get.bind_atomic fun _ ↦ (looks_demand _ _).bind_atomic atomic_deleteNodeInPlace

theorem result_deleteSelectedInPlace (s : Session) :
    deleteSelectedInPlace.result s = (silently s.deleteSelected?).map fun s' ↦ ((), s') := by
  rw [deleteSelectedInPlace, result_get_bind, result_demand_bind, deleteSelected?]
  cases s.selected with
  | none => rfl
  | some id => exact result_deleteNodeInPlace id s

/-! ### Looking -/

def zoomInPlace (direction : ZoomDirection) : InPlace Session Refusal Unit := do
  let s ← get
  within viewPart (Viewport.zoomInPlace direction (some s.viewCenter))

theorem atomic_zoomInPlace (direction : ZoomDirection) : (zoomInPlace direction).Atomic :=
  looks_get.bind_atomic fun _ ↦ (Viewport.atomic_zoomInPlace direction _).within viewPart

theorem result_zoomInPlace (direction : ZoomDirection) (s : Session) :
    (zoomInPlace direction).result s = (silently (s.zoom? direction)).map fun s' ↦ ((), s') := by
  rw [zoomInPlace, result_get_bind, result_within_view, Viewport.result_zoomInPlace, zoom?]
  cases s.view.zoom? direction (some s.viewCenter) <;> rfl

def fitInPlace : InPlace Session Refusal Unit := do
  let s ← get
  within viewPart (Viewport.fitInPlace s.graph.nodes s.width s.height)

theorem atomic_fitInPlace : fitInPlace.Atomic :=
  looks_get.bind_atomic fun _ ↦ (Viewport.atomic_fitInPlace _ _ _).within viewPart

theorem result_fitInPlace (s : Session) :
    fitInPlace.result s = (silently s.fit?).map fun s' ↦ ((), s') := by
  rw [fitInPlace, result_get_bind, result_within_view, Viewport.result_fitInPlace, fit?]
  cases s.view.fit? s.graph.nodes s.width s.height <;> rfl

/-! ### Documents and keys -/

def loadInPlace (text : String) : InPlace Session Refusal Unit := do
  within graphPart (Graph.loadTextInPlace text)
  modify fun s ↦ { s with gesture := .idle }
  modify fun s ↦ { s with view := s.view.endPan }
  modify fun s ↦ { s with selected := none }
  modify fun s ↦ { s with hovered := none }

theorem atomic_loadInPlace (text : String) : (loadInPlace text).Atomic :=
  ((Graph.atomic_loadTextInPlace text).within graphPart).bind_completes fun _ ↦
    (completes_modify _).bind fun _ ↦ (completes_modify _).bind fun _ ↦
      (completes_modify _).bind fun _ ↦ completes_modify _

theorem result_loadInPlace (text : String) (s : Session) :
    (loadInPlace text).result s =
      ((s.load text).mapError Refusal.document).map fun s' ↦ ((), s') := by
  rw [loadInPlace, result_bind, result_within_graph, Graph.result_loadTextInPlace, load]
  cases s.graph.loadText text <;> rfl

/-- A key that is bound to something counts as used, even if that is refused. -/
def runShortcutInPlace : Shortcut → InPlace Session Refusal Unit
  | .zoomIn => ignore (zoomInPlace .inward)
  | .zoomOut => ignore (zoomInPlace .outward)
  | .resetView => modify resetView
  | .fitView => ignore fitInPlace
  | .toggleLock => modify toggleLock
  | .deleteSelected => ignore deleteSelectedInPlace
  | .cancel => do
    modify cancelGesture
    modify fun s ↦ { s with selected := none }

theorem completes_runShortcutInPlace (shortcut : Shortcut) :
    (runShortcutInPlace shortcut).Completes := by
  cases shortcut with
  | zoomIn => exact completes_ignore _
  | zoomOut => exact completes_ignore _
  | resetView => exact completes_modify _
  | fitView => exact completes_ignore _
  | toggleLock => exact completes_modify _
  | deleteSelected => exact completes_ignore _
  | cancel => exact (completes_modify _).bind fun _ ↦ completes_modify _

/-- Ignoring what is refused without a word. -/
theorem result_ignore_of_silently {x : InPlace Session Refusal Unit} (hx : x.Atomic) {s : Session}
    {s' : Option Session} (h : x.result s = (silently s').map fun s' ↦ ((), s')) :
    (ignore x).result s = .ok ((), s'.getD s) := by
  rw [hx.result_ignore, h]
  cases s' <;> rfl

theorem result_runShortcutInPlace (shortcut : Shortcut) (s : Session) :
    (runShortcutInPlace shortcut).result s = .ok ((), s.runShortcut shortcut) := by
  cases shortcut with
  | zoomIn => exact result_ignore_of_silently (atomic_zoomInPlace _) (result_zoomInPlace _ s)
  | zoomOut => exact result_ignore_of_silently (atomic_zoomInPlace _) (result_zoomInPlace _ s)
  | resetView => rfl
  | fitView => exact result_ignore_of_silently atomic_fitInPlace (result_fitInPlace s)
  | toggleLock => rfl
  | deleteSelected =>
    exact result_ignore_of_silently atomic_deleteSelectedInPlace (result_deleteSelectedInPlace s)
  | cancel => rfl

def keyInPlace (key : String) (modifiers : Modifiers) : InPlace Session Refusal Unit := do
  let shortcut ← demand (Shortcut.resolve? key modifiers) .silent
  runShortcutInPlace shortcut

theorem atomic_keyInPlace (key : String) (modifiers : Modifiers) :
    (keyInPlace key modifiers).Atomic :=
  (looks_demand _ _).bind_atomic fun shortcut ↦ (completes_runShortcutInPlace shortcut).atomic

theorem result_keyInPlace (key : String) (modifiers : Modifiers) (s : Session) :
    (keyInPlace key modifiers).result s =
      (silently (s.key? key modifiers)).map fun s' ↦ ((), s') := by
  rw [keyInPlace, result_demand_bind, key?]
  cases Shortcut.resolve? key modifiers with
  | none => rfl
  | some shortcut => exact result_runShortcutInPlace shortcut s

/-! ### Requests -/

theorem toOption_silently {α : Type} (result : Option α) :
    (silently result).toOption = result := by
  cases result <;> rfl

/-- What a session answers to a request: why it refuses it, or the session after it. -/
def answer (s : Session) : Request → Except Refusal Session
  | .key key modifiers => silently (s.key? key modifiers)
  | .drop payload p => silently ((s.drop? payload p).map Prod.fst)
  | .zoom direction => silently (s.zoom? direction)
  | .fit => silently s.fit?
  | .connect source target => silently ((s.connect? source target).map Prod.fst)
  | .deleteConnection id => silently (s.deleteConnection? id)
  | .deleteNode id => silently (s.deleteNode? id)
  | .deleteSelected => silently s.deleteSelected?
  | .setParam id name value => (s.setParam id name value).mapError .param
  | .load text => (s.load text).mapError .document
  | request => .ok (s.serve request)

/-- A request that is refused leaves the session as it was, and any other leads where its answer
says. -/
theorem serve_eq_answer (s : Session) (request : Request) :
    s.serve request = (s.answer request).toOption.getD s := by
  cases request with
  | setParam id name value =>
    rw [serve, answer]
    cases s.setParam id name value <;> rfl
  | load text =>
    rw [serve, answer]
    cases s.load text <;> rfl
  | _ => simp only [serve, answer, toOption_silently] <;> rfl

/-- Serves a request in place. What is never refused has a single step. -/
def attempt : Request → InPlace Session Refusal Unit
  | .key key modifiers => keyInPlace key modifiers
  | .drop payload p => do let _ ← dropInPlace payload p
  | .zoom direction => zoomInPlace direction
  | .fit => fitInPlace
  | .connect source target => do let _ ← connectInPlace source target
  | .deleteConnection id => deleteConnectionInPlace id
  | .deleteNode id => deleteNodeInPlace id
  | .deleteSelected => deleteSelectedInPlace
  | .setParam id name value => setParamInPlace id name value
  | .load text => loadInPlace text
  | request => modify fun s ↦ s.serve request

theorem atomic_attempt (request : Request) : (attempt request).Atomic := by
  cases request with
  | key key modifiers => exact atomic_keyInPlace key modifiers
  | drop payload p => exact (atomic_dropInPlace payload p).bind_completes fun _ ↦ completes_pure _
  | zoom direction => exact atomic_zoomInPlace direction
  | fit => exact atomic_fitInPlace
  | connect source target =>
    exact (atomic_connectInPlace source target).bind_completes fun _ ↦ completes_pure _
  | deleteConnection id => exact atomic_deleteConnectionInPlace id
  | deleteNode id => exact atomic_deleteNodeInPlace id
  | deleteSelected => exact atomic_deleteSelectedInPlace
  | setParam id name value => exact atomic_setParamInPlace id name value
  | load text => exact atomic_loadInPlace text
  | _ => exact (completes_modify _).atomic

theorem result_attempt (request : Request) (s : Session) :
    (attempt request).result s = (s.answer request).map fun s' ↦ ((), s') := by
  cases request with
  | key key modifiers => exact result_keyInPlace key modifiers s
  | drop payload p =>
    rw [attempt, answer, result_bind, result_dropInPlace]
    cases s.drop? payload p <;> rfl
  | zoom direction => exact result_zoomInPlace direction s
  | fit => exact result_fitInPlace s
  | connect source target =>
    rw [attempt, answer, result_bind, result_connectInPlace]
    cases s.connect? source target <;> rfl
  | deleteConnection id => exact result_deleteConnectionInPlace id s
  | deleteNode id => exact result_deleteNodeInPlace id s
  | deleteSelected => exact result_deleteSelectedInPlace s
  | setParam id name value => exact result_setParamInPlace id name value s
  | load text => exact result_loadInPlace text s
  | _ => rfl

/-- A request that is served in place and refused on the way, whatever was looked at, made apart or
passed over by then, leaves every part of the session as it was; and it is refused if and only if
the session's answer is a refusal. -/
theorem refused_attempt_changes_nothing (s : Session) (request : Request) :
    (∀ refusal s', (attempt request).outcome s = (.error refusal, s') →
      s' = s ∧ s.answer request = .error refusal) ∧
    (∀ s', (attempt request).outcome s = (.ok (), s') → s.answer request = .ok s') ∧
    ((attempt request).outcome s).2 = s.serve request := by
  have houtcome := (atomic_attempt request).outcome_eq s
  rw [result_attempt] at houtcome
  cases hanswer : s.answer request with
  | error fault =>
    rw [hanswer] at houtcome
    have hstays : (attempt request).outcome s = (.error fault, s) := houtcome
    refine ⟨fun refusal s' h ↦ ?_, fun s' h ↦ ?_, ?_⟩
    · cases hstays.symm.trans h
      exact ⟨rfl, rfl⟩
    · cases hstays.symm.trans h
    · rw [hstays, serve_eq_answer, hanswer]
      rfl
  | ok after =>
    rw [hanswer] at houtcome
    have hgoes : (attempt request).outcome s = (.ok (), after) := houtcome
    refine ⟨fun refusal s' h ↦ ?_, fun s' h ↦ ?_, ?_⟩
    · cases hgoes.symm.trans h
    · cases hgoes.symm.trans h
      rfl
    · rw [hgoes, serve_eq_answer, hanswer]
      rfl

/-- While a deleted node waits for its connection to fade and the view is panned, a document is to
be loaded whose only connection joins a node to itself. -/
theorem refused_attempt_changes_nothing_midway :
    ∃ s text, s.graph.leaving = [⟨"Input-1"⟩] ∧ s.graph.isAnimating = true ∧
      s.view.isPanning = true ∧
        (attempt (.load text)).outcome s = (.error (.document (.selfLoop ⟨"c"⟩)), s) := by
  have hstays (s : Session) (request : Request) (refusal : Refusal)
      (h : ((attempt request).outcome s).1 = .error refusal) :
      (attempt request).outcome s = (.error refusal, s) :=
    Prod.ext h ((refused_attempt_changes_nothing s request).1 _ _ (Prod.ext h rfl)).1
  let payload : String := "\x7b\"type\":\"Input\",\"label\":\"\"\x7d"
  let node : String := "\x7b\"id\":\"a\",\"type\":\"\",\"label\":\"\"," ++
    "\"x\":0,\"y\":0,\"width\":1,\"height\":1\x7d"
  let loop : String := "\x7b\"id\":\"c\",\"from\":\"a\",\"to\":\"a\"," ++
    "\"fromX\":0,\"fromY\":0,\"toX\":0,\"toY\":0\x7d"
  exact ⟨run .standard
      [.drop payload ⟨0, 0⟩, .drop payload ⟨0, 400⟩, .connect ⟨"Input-1"⟩ ⟨"Input-2"⟩,
        .tick 0 (.listed _), .deleteNode ⟨"Input-1"⟩,
        .input (.pointerDown ⟨300, 300⟩ .middle {})],
    "\x7b\"nodes\":[" ++ node ++ "],\"connections\":[" ++ loop ++ "]\x7d",
    by decide +kernel, by decide +kernel, by decide +kernel, hstays _ _ _ (by decide +kernel)⟩

end Session

end LayerCanvas
