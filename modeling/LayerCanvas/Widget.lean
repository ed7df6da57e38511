import LayerCanvas.Config.Json
import LayerCanvas.Painting.Drawing
import LayerCanvas.Interaction.Session

/-!
The editor as a page embeds it: a session with the size of its drawing surface, which answers in
texts. The page asks after each call whether a frame is wanted; asking takes the wish back.
-/

set_option autoImplicit false
set_option relaxedAutoImplicit false

namespace LayerCanvas

/-- An embedded editor. -/
structure Widget where
  session : Session
  width : Float
  height : Float
  /-- Whether a frame has been asked for since the page last looked. -/
  frameWanted : Bool := false
  deriving DecidableEq

namespace Widget

/-- An editor with the given settings. -/
def ofConfig (config : EditorConfig) (width height : Float) : Widget :=
  let session := (Session.new config).setViewSize (Precision.narrow width) (Precision.narrow height)
  { session, width, height }

/-- An editor with the usual settings. -/
def new (width height : Float) : Widget := ofConfig .standard width height

/-- An editor with the settings of a text, or the usual ones where it gives none. -/
def withConfig (text : String) (width height : Float) : Widget :=
  match EditorConfig.parse text with
  | .ok config => ofConfig config width height
  | .error _ => new width height

/-- Puts another session in place, and notes whether it asked for a frame. -/
def update (w : Widget) (session : Session) : Widget :=
  { w with session, frameWanted := w.frameWanted || w.session.frames < session.frames }

/-- Whether a frame is wanted, after which none is. -/
def needsFrame (w : Widget) : Widget × Bool := ({ w with frameWanted := false }, w.frameWanted)

/-- Changes the size of the surface. -/
def resize (w : Widget) (width height : Float) : Widget :=
  let session := w.session.setViewSize (Precision.narrow width) (Precision.narrow height)
  { w with session, width, height }

/-- The drawing of the editor. -/
def drawing (w : Widget) : Drawing :=
  .ofGraph w.session.graph w.session.view.transform w.session.overlay w.width w.height
    w.session.showsGrid

/-- The transform of the view, as text. -/
def transformText (w : Widget) : String :=
  let t := w.session.view.transform
  (Json.ofMembers
    [("offsetX", .ofFloat32 t.offset.x), ("offsetY", .ofFloat32 t.offset.y),
      ("scale", .ofFloat32 t.scale)]).render

/-- The selected node with the numbers of its connections, as text; the keys are in order and the
coordinates in double precision. -/
def selectedText (w : Widget) : String :=
  match w.session.selected.bind w.session.graph.node? with
  | none => Json.null.render
  | some n =>
    let degree := w.session.graph.degree n.id
    (Json.ofMembersByKey
      [("node", .ofMembersByKey (n.members fun x ↦ .ofFloat (Precision.widen x))),
        ("inputs", .ofNat degree.inputs), ("outputs", .ofNat degree.outputs)]).render

/-- The counts of the graph, as text. -/
def statsText (w : Widget) : String := w.session.graph.stats.toJson.render

/-- The saved graph, as text. -/
def saveText (w : Widget) : String := w.session.graph.save.render

/-- Gives a parameter the value that a text writes. The value is read before the node is looked up.
-/
def setParam (w : Widget) (id : NodeId) (name text : String) : Except String Widget :=
  match (Json.parse? text).bind ParamValue.ofJson? with
  | none => .error "Json"
  | some value =>
    match w.session.setParam id name value with
    | .ok session => .ok (w.update session)
    | .error cause => .error cause.message

/-- Loads a document in place of the graph. -/
def load (w : Widget) (text : String) : Except String Widget :=
  match w.session.load text with
  | .ok session => .ok (w.update session)
  | .error cause => .error cause.message

end Widget

end LayerCanvas
