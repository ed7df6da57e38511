import LayerCanvas.Painting.Scene
import LayerCanvas.Graph.Load
import LayerCanvas.Graph.Tick
import LayerCanvas.Interaction.Gesture
import LayerCanvas.Interaction.Shortcut

/-!
An editing session: the graph, the view, the gesture under way, and what is selected and pointed at.
Everything the user or the page does goes through it, so that its parts stay in step: the selection
names a node that is there to stay, the connection pointed at is live, and a frame is asked for
whenever an animation is under way.
-/

set_option autoImplicit false
set_option relaxedAutoImplicit false

namespace LayerCanvas

/-- The shape of the pointer. -/
inductive Cursor
  | default
  | grab
  | grabbing
  | move
  | crosshair
  | pointer
  deriving DecidableEq

/-- The name of a shape in a style sheet. -/
def Cursor.name : Cursor → String
  | .default => "default"
  | .grab => "grab"
  | .grabbing => "grabbing"
  | .move => "move"
  | .crosshair => "crosshair"
  | .pointer => "pointer"

/-- The state of an editing session. -/
structure Session where
  config : EditorConfig
  graph : Graph
  view : Viewport
  gesture : Gesture := .idle
  selected : Option NodeId := none
  /-- The connection whose delete target is under the pointer. -/
  hovered : Option ConnectionId := none
  spaceHeld : Bool := false
  showsGrid : Bool := true
  width : Float32 := 0
  height : Float32 := 0
  /-- How many frames have been asked for. -/
  frames : Nat := 0
  deriving DecidableEq

namespace Session

/-- A session with an empty graph. -/
def new (config : EditorConfig) : Session :=
  { config, graph := .empty config, view := .new config.view }

/-- Takes note of the size of the view. -/
def setViewSize (s : Session) (width height : Float32) : Session := { s with width, height }

/-- The line of the connection that is being drawn. -/
def drawnLine? (s : Session) : Option (Point × Point) :=
  s.gesture.drawn?.map fun (source, pointer) ↦ (source.position, pointer)

/-- What a painter shows besides the graph. -/
def overlay (s : Session) : Overlay :=
  { selected := s.selected, hovered := s.hovered, line := s.drawnLine? }

/-- The scene of the session. -/
def scene (s : Session) : Scene := .ofGraph s.graph s.view.transform s.overlay

/-- The shape of the pointer. -/
def cursor (s : Session) : Cursor :=
  match s.gesture with
  | .panning => .grabbing
  | .dragging _ _ => .move
  | .connecting _ _ => .crosshair
  | .idle =>
    if s.spaceHeld && !s.view.locked then .grab
    else if s.hovered.isSome then .pointer
    else .default

/-- Takes note of whether the space bar is held. -/
def setSpaceHeld (s : Session) (held : Bool) : Session := { s with spaceHeld := held }

/-- Shows or hides the grid. -/
def setShowsGrid (s : Session) (shown : Bool) : Session := { s with showsGrid := shown }

/-- Shows the grid if it was hidden, and hides it if it was shown. -/
def toggleGrid (s : Session) : Session := { s with showsGrid := !s.showsGrid }

/-- Asks for a frame if an animation is under way. -/
def schedule (s : Session) : Session :=
  if s.graph.isAnimating then { s with frames := s.frames + 1 } else s

/-- Makes a node of a dropped palette entry, centred on a point of the screen. An entry that cannot
be read and a point that is not on the canvas are passed over. -/
def drop? (s : Session) (payload : String) (p : Point) : Option (Session × NodeId) := do
  let layer ← Layer.parse? payload
  let center := s.view.transform.toCanvas p
  if !center.isFinite then none
  let origin := ⟨center.x - s.config.nodeWidth / 2, center.y - s.config.nodeHeight / 2⟩
  let (graph, id) := s.graph.addNode layer origin
  pure ({ s with graph }, id)

/-- Selects a node that is there to stay, or nothing. -/
def select (s : Session) (id : Option NodeId) : Session :=
  { s with selected := id.filter fun id ↦ s.graph.contains id && !s.graph.isLeaving id }

/-- Connects two nodes from anchor to anchor. -/
def connect? (s : Session) (source target : NodeId) : Option (Session × ConnectionId) := do
  let start ← s.graph.node? source
  let stop ← s.graph.node? target
  let (graph, id) ← s.graph.addConnection? source target start.outputAnchor stop.inputAnchor
  pure ({ s with graph }.schedule, id)

/-- Lets a connection fade. -/
def deleteConnection? (s : Session) (id : ConnectionId) : Option Session :=
  (s.graph.deleteConnection? id).map fun graph ↦
    { s with graph, hovered := if s.hovered = some id then none else s.hovered }.schedule

/-- The connection pointed at, unless it has gone or fades. -/
def liveHover (s : Session) : Option ConnectionId :=
  s.hovered.filter fun id ↦ (s.graph.connection? id).any Connection.isLive

/-- Deletes a node. -/
def deleteNode? (s : Session) (id : NodeId) : Option Session :=
  (s.graph.deleteNode? id).map fun graph ↦
    let s := { s with graph, selected := if s.selected = some id then none else s.selected }
    { s with hovered := s.liveHover }.schedule

/-- Deletes the selected node. -/
def deleteSelected? (s : Session) : Option Session := s.selected.bind s.deleteNode?

/-- Deletes everything and gives up the gesture under way. -/
def clear (s : Session) : Session :=
  { s with
    gesture := .idle
    view := s.view.endPan
    graph := s.graph.clear
    selected := none
    hovered := none }.schedule

/-- Gives a parameter of a node another value. -/
def setParam (s : Session) (id : NodeId) (name : String) (value : ParamValue) :
    Except ParamError Session :=
  (s.graph.setParam id name value).map fun graph ↦ { s with graph }

/-- The middle of the view. -/
def viewCenter (s : Session) : Point := ⟨s.width / 2, s.height / 2⟩

/-- One step of zooming about the middle of the view. -/
def zoom? (s : Session) (direction : ZoomDirection) : Option Session :=
  (s.view.zoom? direction (some s.viewCenter)).map fun view ↦ { s with view }

/-- Shows all nodes. -/
def fit? (s : Session) : Option Session :=
  (s.view.fit? s.graph.nodes s.width s.height).map fun view ↦ { s with view }

/-- Goes back to the unchanged view. -/
def resetView (s : Session) : Session := { s with view := s.view.reset }

/-- Takes one action. One that is refused changes nothing. -/
def apply (s : Session) : Action → Session
  | .select id => s.select id
  | .bringToFront id => { s with graph := s.graph.bringToFront id }
  | .moveNode id origin => { s with graph := (s.graph.moveNode? id origin).getD s.graph }
  | .startPan pointer => { s with view := (s.view.startPan? pointer).getD s.view }
  | .updatePan pointer => { s with view := s.view.updatePan pointer }
  | .endPan => { s with view := s.view.endPan }
  | .zoom direction center =>
    { s with view := (s.view.zoom? direction (some center)).getD s.view }
  | .connect source target => ((s.connect? source target).map Prod.fst).getD s
  | .deleteConnection id => (s.deleteConnection? id).getD s

/-- Takes actions in their order. -/
def applyAll (s : Session) (actions : List Action) : Session := actions.foldl apply s

/-- What lies under a point of the screen. -/
def hit (s : Session) (p : Point) : Hit :=
  s.graph.hit s.config s.hovered (s.view.transform.toCanvas p)

/-- The connection whose delete target lies under a point of the screen. -/
def hoverAt (s : Session) (p : Point) : Option ConnectionId :=
  match s.hit p with
  | .deleteTarget id => some id
  | _ => none

/-- Hands an event to the gesture machine and takes the actions it asks for. What the pointer is
over matters to presses and releases; a move changes what is pointed at, unless a gesture is under
way. -/
def handle (s : Session) (event : InputEvent) : Session :=
  let s :=
    match event with
    | .pointerMove p _ => if s.gesture = Gesture.idle then { s with hovered := s.hoverAt p } else s
    | _ => s
  let hit :=
    match event with
    | .pointerDown p _ _ | .pointerUp p _ _ => s.hit p
    | .pointerMove _ _ | .wheel _ _ => .canvas
  let (gesture, actions) := s.gesture.handle event hit s.view
  { s with gesture }.applyAll actions

/-- Gives up the gesture under way. -/
def cancelGesture (s : Session) : Session :=
  let (gesture, actions) := s.gesture.cancel
  { s with gesture }.applyAll actions

/-- Locks or unlocks the view. Locking gives up a pan. -/
def setLocked (s : Session) (locked : Bool) : Session :=
  let s := { s with view := s.view.setLocked locked }
  if locked ∧ s.gesture = .panning then s.cancelGesture else s

/-- Locks the view if it was not locked, and unlocks it if it was. -/
def toggleLock (s : Session) : Session := s.setLocked !s.view.locked

/-- Moves the animations on to a time, and says whether another frame is needed. -/
def tick (s : Session) (now : Float) : Session × Bool :=
  let (graph, outcome) := s.graph.tick now
  let s :=
    { s with
      graph
      selected := s.selected.filter fun id ↦ !outcome.removed.contains id
      hovered := s.hovered.filter fun id ↦ !outcome.purged.contains id
      frames := if outcome.needsFrame then s.frames + 1 else s.frames }
  (s, outcome.needsFrame)

/-- Loads a document in place of the graph. -/
def load (s : Session) (text : String) : Except GraphError Session :=
  (s.graph.loadText text).map fun graph ↦
    { s with
      graph
      gesture := .idle
      view := s.view.endPan
      selected := none
      hovered := none }

/-- Runs a shortcut. -/
def runShortcut (s : Session) : Shortcut → Session
  | .zoomIn => (s.zoom? .inward).getD s
  | .zoomOut => (s.zoom? .outward).getD s
  | .resetView => s.resetView
  | .fitView => s.fit?.getD s
  | .toggleLock => s.toggleLock
  | .deleteSelected => s.deleteSelected?.getD s
  | .cancel => { s.cancelGesture with selected := none }

/-- Runs the shortcut bound to a key, if there is one. -/
def key? (s : Session) (key : String) (modifiers : Modifiers) : Option Session :=
  (Shortcut.resolve? key modifiers).map s.runShortcut

end Session

end LayerCanvas
