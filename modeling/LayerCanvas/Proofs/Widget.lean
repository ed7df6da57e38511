import LayerCanvas.Widget
import LayerCanvas.Proofs.Session.Frames

/-!
Runs of an embedded editor. Its page passes requests on to the session, gives it texts and other
sizes, and asks between them whether a frame is wanted. The answer is given once: a page that was
told that a frame is wanted is not told again until another one is asked for. As long as animations
are under way, the wish for a frame is still there or the page has been told of it since the last
tick, so a page that asks after every request keeps them going.
-/

set_option autoImplicit false
set_option relaxedAutoImplicit false

namespace LayerCanvas.Widget

/-- What a page can ask of an embedded editor. -/
inductive Request
  /-- A request that is passed on to the session. -/
  | pass (request : Session.Request)
  | resize (width height : Float)
  | setParam (id : NodeId) (name text : String)
  | load (text : String)
  | needsFrame

/-- Whether a request is a tick. -/
def Request.isTick : Request → Bool
  | .pass request => request.isTick
  | _ => false

/-- The editor after a request. -/
def serve (w : Widget) : Request → Widget
  | .pass request => w.update (w.session.serve request)
  | .resize width height => w.resize width height
  | .setParam id name text => (w.setParam id name text).toOption.getD w
  | .load text => (w.load text).toOption.getD w
  | .needsFrame => w.needsFrame.1

/-- The editor of a run. -/
def run (config : EditorConfig) (width height : Float) (requests : List Request) : Widget :=
  requests.foldl serve (ofConfig config width height)

theorem run_concat (config : EditorConfig) (width height : Float) (requests : List Request)
    (request : Request) :
    run config width height (requests ++ [request]) =
      (run config width height requests).serve request := List.foldl_append

/-- What an editor does with a request but the question for a frame, in terms of a request to its
session. -/
structure Passes (w : Widget) (request : Request) (passed : Session.Request) : Prop where
  isTick : passed.isTick = request.isTick
  session : (w.serve request).session = w.session.serve passed
  frameWanted : (w.serve request).frameWanted =
    (w.frameWanted || w.session.frames < (w.session.serve passed).frames)

theorem Passes.of_update {w : Widget} {request : Request} {passed : Session.Request}
    (isTick : passed.isTick = request.isTick)
    (h : w.serve request = w.update (w.session.serve passed)) : w.Passes request passed :=
  ⟨isTick, by rw [h]; rfl, by rw [h]; rfl⟩

theorem update_session (w : Widget) : w.update w.session = w := by
  simp [update]

theorem exists_passes (w : Widget) (request : Request) :
    request = .needsFrame ∨ ∃ passed, w.Passes request passed := by
  cases request with
  | needsFrame => exact Or.inl rfl
  | pass request => exact Or.inr ⟨request, .of_update rfl rfl⟩
  | resize width height =>
    refine Or.inr ⟨.setViewSize (Precision.narrow width) (Precision.narrow height), rfl, rfl, ?_⟩
    simp [serve, resize, Session.serve, Session.setViewSize]
  | setParam id name text =>
    right
    cases hvalue : (Json.parse? text).bind ParamValue.ofJson? with
    | none =>
      -- The session hears nothing of a text that gives no value, as if no names were drawn.
      refine ⟨.drawNames 0, .of_update rfl ?_⟩
      have hsame : w.session.serve (.drawNames 0) = w.session := rfl
      rw [hsame, update_session]
      simp [serve, setParam, hvalue, Except.toOption]
    | some value =>
      refine ⟨.setParam id name value, .of_update rfl ?_⟩
      cases hset : w.session.setParam id name value <;>
        simp [serve, setParam, Session.serve, hvalue, hset, Except.toOption, update_session]
  | load text =>
    refine Or.inr ⟨.load text, .of_update rfl ?_⟩
    cases hload : w.session.load text <;>
      simp [serve, load, Session.serve, hload, Except.toOption, update_session]

/-- While animations are under way, the wish for a frame is there, or the page has been told of it
since the last tick. -/
theorem wanted_or_told (config : EditorConfig) (width height : Float) (requests : List Request)
    (hmoves : (run config width height requests).session.graph.isAnimating = true) :
    (run config width height requests).frameWanted = true ∨
      SinceLast Request.isTick
        (fun before request ↦ request = .needsFrame ∧
          (run config width height before).needsFrame.2 = true) requests := by
  induction requests using List.reverseRecOn with
  | nil => cases hmoves
  | append_singleton requests request ih =>
    rw [run_concat] at hmoves ⊢
    rcases exists_passes (run config width height requests) request with rfl | ⟨passed, h⟩
    · -- The page is told of a wish that is there, and the wish is gone after that.
      right
      rcases ih hmoves with hwanted | htold
      · exact .concat ⟨rfl, hwanted⟩
      · exact htold.extend rfl
    · rw [h.session] at hmoves
      rw [h.frameWanted, Bool.or_eq_true, decide_eq_true_iff]
      rcases Session.asks_or_kept _ passed hmoves with hasks | ⟨htick, hkept⟩
      · left
        right
        rw [hasks]
        exact Nat.lt_succ_self _
      · rcases ih hkept with hwanted | htold
        · exact Or.inl (Or.inl hwanted)
        · exact Or.inr (htold.extend (h.isTick ▸ htick))

/-- Animations neither stall nor spin. As long as any are under way in a run of a session, it has
asked for a frame in the last tick or after it, and a request makes it ask for at most one frame,
and for none unless animations are under way then. As long as any are under way in a run of an
embedded editor, a frame is wanted or the page has been told so since the last tick. -/
theorem frames_while_animating (config : EditorConfig) :
    (∀ requests : List Session.Request, (Session.run config requests).graph.isAnimating = true →
      SinceLast Session.Request.isTick
        (fun before request ↦ (Session.run config before).Asks request) requests) ∧
    (∀ (requests : List Session.Request) (request : Session.Request),
      ((Session.run config requests).serve request).frames =
          (Session.run config requests).frames ∨
        (Session.run config requests).Asks request ∧
          ((Session.run config requests).serve request).graph.isAnimating = true) ∧
    (∀ (width height : Float) (requests : List Request),
      (run config width height requests).session.graph.isAnimating = true →
        (run config width height requests).frameWanted = true ∨
          SinceLast Request.isTick
            (fun before request ↦ request = .needsFrame ∧
              (run config width height before).needsFrame.2 = true) requests) := by
  refine ⟨Session.asks_since_tick config, fun requests request ↦ ?_, wanted_or_told config⟩
  rcases (Session.run config requests).paced_serve request with ⟨hsame, -⟩ | ⟨hasks, hmoves⟩
  · exact Or.inl hsame
  · exact Or.inr ⟨hasks, hmoves⟩

/-- Two nodes are dropped and connected, and a tick is followed by the question for a frame. Then
the animation is under way and no frame is wanted, since the page has been told. -/
theorem frames_while_animating_told :
    ∃ requests, (run .standard 800 600 requests).session.graph.isAnimating = true ∧
      (run .standard 800 600 requests).frameWanted = false ∧
        SinceLast Request.isTick
          (fun before request ↦ request = .needsFrame ∧
            (run .standard 800 600 before).needsFrame.2 = true) requests := by
  let payload : String := "\x7b\"type\":\"Input\",\"label\":\"\"\x7d"
  let requests : List Request :=
    [.pass (.drop payload ⟨0, 0⟩), .pass (.drop payload ⟨0, 400⟩),
      .pass (.connect ⟨"Input-1"⟩ ⟨"Input-2"⟩), .pass (.tick 0 (.listed _)), .needsFrame]
  have hmoves : (run .standard 800 600 requests).session.graph.isAnimating = true := by
    decide +kernel
  have hunwanted : (run .standard 800 600 requests).frameWanted = false := by decide +kernel
  obtain ⟨-, -, hframes⟩ := frames_while_animating .standard
  refine ⟨requests, hmoves, hunwanted, (hframes 800 600 requests hmoves).resolve_left ?_⟩
  simp [hunwanted]

end LayerCanvas.Widget
