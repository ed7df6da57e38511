import LayerCanvas.Interaction.Session
import LayerCanvas.Proofs.Graph.Run
import Mathlib.Data.List.Induction

/-!
Runs of a session. A request is anything that a page can ask of a session, and one that is refused
leaves the session as it was. A run starts from a new session and serves requests one after the
other.

As for graphs, nothing is assumed of the requests: points and times may be any numbers, a text may
be anything, a tick goes through its samples in any order, and other sessions may have drawn names
in between.
-/

set_option autoImplicit false
set_option relaxedAutoImplicit false

namespace LayerCanvas.Session

/-- What a page can ask of a session. -/
inductive Request
  /-- Something the user does with the pointer or the wheel. -/
  | input (event : InputEvent)
  | key (key : String) (modifiers : Modifiers)
  | drop (payload : String) (p : Point)
  | setViewSize (width height : Float32)
  | setSpaceHeld (held : Bool)
  | setShowsGrid (shown : Bool)
  | toggleGrid
  | zoom (direction : ZoomDirection)
  | fit
  | resetView
  | setLocked (locked : Bool)
  | toggleLock
  | select (id : Option NodeId)
  | connect (source target : NodeId)
  | deleteConnection (id : ConnectionId)
  | deleteNode (id : NodeId)
  | deleteSelected
  | clear
  | setParam (id : NodeId) (name : String) (value : ParamValue)
  | tick (now : Float) (order : SampleOrder Float32)
  | load (text : String)
  /-- Names drawn by another session. -/
  | drawNames (count : Nat)

/-- Whether a request is a tick. -/
def Request.isTick : Request → Bool
  | .tick _ _ => true
  | _ => false

/-- A tick that goes through the samples in a given order. -/
def tickIn (s : Session) (now : Float) (order : SampleOrder Float32) : Session × Bool :=
  let (graph, outcome) := s.graph.tickIn now order
  let s :=
    { s with
      graph
      selected := s.selected.filter fun id ↦ !outcome.removed.contains id
      hovered := s.hovered.filter fun id ↦ !outcome.purged.contains id
      frames := if outcome.needsFrame then s.frames + 1 else s.frames }
  (s, outcome.needsFrame)

theorem tickIn_listed (s : Session) (now : Float) : s.tickIn now (.listed Float32) = s.tick now :=
  rfl

/-- The session after a request. -/
def serve (s : Session) : Request → Session
  | .input event => s.handle event
  | .key key modifiers => (s.key? key modifiers).getD s
  | .drop payload p => ((s.drop? payload p).map Prod.fst).getD s
  | .setViewSize width height => s.setViewSize width height
  | .setSpaceHeld held => s.setSpaceHeld held
  | .setShowsGrid shown => s.setShowsGrid shown
  | .toggleGrid => s.toggleGrid
  | .zoom direction => (s.zoom? direction).getD s
  | .fit => s.fit?.getD s
  | .resetView => s.resetView
  | .setLocked locked => s.setLocked locked
  | .toggleLock => s.toggleLock
  | .select id => s.select id
  | .connect source target => ((s.connect? source target).map Prod.fst).getD s
  | .deleteConnection id => (s.deleteConnection? id).getD s
  | .deleteNode id => (s.deleteNode? id).getD s
  | .deleteSelected => s.deleteSelected?.getD s
  | .clear => s.clear
  | .setParam id name value => (s.setParam id name value).toOption.getD s
  | .tick now order => (s.tickIn now order).1
  | .load text => (s.load text).toOption.getD s
  | .drawNames count => { s with graph := s.graph.apply (.drawNames count) }

/-- The session after several requests. -/
def serveAll (s : Session) (requests : List Request) : Session := requests.foldl serve s

theorem serveAll_cons (s : Session) (request : Request) (rest : List Request) :
    s.serveAll (request :: rest) = (s.serve request).serveAll rest := rfl

theorem serveAll_append (s : Session) (first second : List Request) :
    s.serveAll (first ++ second) = (s.serveAll first).serveAll second := List.foldl_append

/-- The session of a run. -/
def run (config : EditorConfig) (requests : List Request) : Session :=
  (new config).serveAll requests

theorem run_append (config : EditorConfig) (first second : List Request) :
    run config (first ++ second) = (run config first).serveAll second := serveAll_append _ _ _

theorem run_concat (config : EditorConfig) (requests : List Request) (request : Request) :
    run config (requests ++ [request]) = (run config requests).serve request :=
  run_append config requests [request]

/-- What a new session has and every request keeps holds after every run. -/
theorem run_induction {P : Session → Prop} {config : EditorConfig} (hnew : P (new config))
    (hstep : ∀ s request, P s → P (s.serve request)) (requests : List Request) :
    P (run config requests) := by
  induction requests using List.reverseRecOn with
  | nil => exact hnew
  | append_singleton requests request ih =>
    rw [run_concat]
    exact hstep _ request ih

end LayerCanvas.Session
