import LayerCanvas.Interaction.Gesture
import Mathlib.Data.List.Induction
import Mathlib.Tactic.SplitIfs

/-!
The order in which the gesture machine asks for actions. The machine keeps its state and nothing
else, and what lies under the pointer may be anything at any time; still the actions make sense to
whoever takes them without looking at the machine. A pan is moved and ended only while one is open.
A node is moved only by the drag that its own press began, which is the last press that selected
anything. A connection is made between different nodes, from the output dot that was pressed to the
input dot of the release, and nothing in between has given it up.

So each state stands for a piece of history: the actions asked for so far, or the press that led
there and what has not happened since. One input carries that piece on, drops it, or begins another.
-/

set_option autoImplicit false
set_option relaxedAutoImplicit false

namespace LayerCanvas

namespace Gesture

/-- What the machine is told: an event, with what lies under the pointer and the view at that time,
or that the gesture is given up. -/
inductive Input
  | event (event : InputEvent) (hit : Hit) (view : Viewport)
  | cancel

namespace Input

/-- A press of the primary button on something. -/
def IsPressOn (hit : Hit) : Input → Prop
  | .event (.pointerDown _ .primary _) h _ => h = hit
  | _ => False

/-- A press of any button on the empty canvas. -/
def IsPressOnCanvas : Input → Prop
  | .event (.pointerDown _ _ _) h _ => h = .canvas
  | _ => False

/-- A release of any button over something. -/
def IsReleaseOver (hit : Hit) : Input → Prop
  | .event (.pointerUp _ _ _) h _ => h = hit
  | _ => False

/-- A release, or that the gesture is given up. -/
def IsEnd : Input → Prop
  | .event (.pointerUp _ _ _) _ _ | .cancel => True
  | _ => False

end Input

/-- The state after an input, and the actions that the machine asks for. -/
def answer (g : Gesture) : Input → Gesture × List Action
  | .event event hit view => g.handle event hit view
  | .cancel => g.cancel

/-- The state after some inputs to an idle machine, and all actions asked for, in their order. -/
def play (inputs : List Input) : Gesture × List Action :=
  inputs.foldl
    (fun played input ↦ ((played.1.answer input).1, played.2 ++ (played.1.answer input).2))
    (.idle, [])

/-- The state after some inputs. -/
def after (inputs : List Input) : Gesture := (play inputs).1

/-- All actions asked for at some inputs, in their order. -/
def asked (inputs : List Input) : List Action := (play inputs).2

/-- The actions asked for at an input that comes after others. -/
def asks (before : List Input) (input : Input) : List Action := ((after before).answer input).2

theorem after_concat (before : List Input) (input : Input) :
    after (before ++ [input]) = ((after before).answer input).1 := by
  simp only [after, play, List.foldl_append, List.foldl_cons, List.foldl_nil]

theorem asked_concat (before : List Input) (input : Input) :
    asked (before ++ [input]) = asked before ++ asks before input := by
  simp only [asked, asks, after, play, List.foldl_append, List.foldl_cons, List.foldl_nil]

/-! ### One input -/

end Gesture

/-- An action that neither selects a node nor ends a pan. -/
def Action.IsPlain : Action → Prop
  | .select _ | .endPan => False
  | _ => True

/-- An action that goes on with a gesture, or ends it. -/
def Action.GoesOn : Action → Prop
  | .updatePan _ | .endPan | .moveNode _ _ | .connect _ _ => True
  | _ => False

/-- The state and the input at which an action goes on with a gesture, or ends it. -/
def Action.Fits (g : Gesture) (input : Gesture.Input) : Action → Prop
  | .updatePan _ | .endPan => g = .panning
  | .moveNode id _ => ∃ grip, g = .dragging id grip
  | .connect source target =>
    ∃ start pointer stop, g = .connecting start pointer ∧ input.IsReleaseOver (.dot stop) ∧
      start.node = source ∧ stop.node = target ∧ stop.kind = .input ∧ source ≠ target
  | _ => True

namespace Gesture

/-- What an input can do to the state, with the actions asked for at it. -/
inductive Turn (g : Gesture) (input : Input) : Gesture → List Action → Prop
  | ends (actions : List Action) : Turn g input .idle actions
  | pans (first : List Action) (pointer : Point) :
    Turn g input .panning (first ++ [.startPan pointer])
  | takes {id : NodeId} {origin : Point} (grip : Point) (h : input.IsPressOn (.node id origin)) :
    Turn g input (.dragging id grip) [.select (some id), .bringToFront id]
  | draws {start : Dot} (pointer : Point) (h : input.IsPressOn (.dot start))
    (hkind : start.kind = .output) (hidle : g.isConnecting = false) :
    Turn g input (.connecting start pointer) []
  | follows {start : Dot} {old : Point} (pointer : Point) (hg : g = .connecting start old)
    (h : ¬ input.IsEnd) (hcanvas : ¬ input.IsPressOnCanvas) :
    Turn g input (.connecting start pointer) []
  | keeps {actions : List Action} (h : ¬ input.IsEnd)
    (hcanvas : g.isConnecting = true → ¬ input.IsPressOnCanvas)
    (hplain : ∀ action ∈ actions, action.IsPlain) : Turn g input g actions

variable {g : Gesture} {input : Input}

/-- A pan begins unless the view is locked, whatever else is asked for before. -/
theorem turn_beginPan (first : List Action) (p : Point) (view : Viewport) :
    Turn g input (beginPan p view).1 (first ++ (beginPan p view).2) := by
  unfold beginPan
  split_ifs
  · exact .ends _
  · exact .pans first p

theorem turn_press (g : Gesture) (p : Point) (button : Button) (modifiers : Modifiers) (hit : Hit)
    (view : Viewport) :
    Turn g (.event (.pointerDown p button modifiers) hit view)
      (g.press p button modifiers hit view).1 (g.press p button modifiers hit view).2 := by
  unfold press
  dsimp only
  split_ifs with hconnecting hcanvas hpan hbutton
  · exact .ends []
  · exact .keeps id (fun _ ↦ hcanvas) nofun
  · exact turn_beginPan [] p view
  · exact .keeps id (fun h ↦ absurd h hconnecting) nofun
  · obtain rfl : button = .primary := not_not.mp hbutton
    cases hit with
    | dot d =>
      dsimp only
      split_ifs with hkind
      · exact .draws _ rfl hkind (Bool.eq_false_iff.mpr hconnecting)
      · exact .keeps id (fun h ↦ absurd h hconnecting) nofun
    | deleteTarget id => exact .ends _
    | node id origin => exact .takes _ rfl
    | canvas => exact turn_beginPan [.select none] p view

theorem turn_drag (g : Gesture) (p : Point) (modifiers : Modifiers) (hit : Hit) (view : Viewport) :
    Turn g (.event (.pointerMove p modifiers) hit view) (g.drag p view).1 (g.drag p view).2 := by
  cases g with
  | idle => exact .ends []
  | connecting start old => exact .follows _ rfl id id
  | _ => exact .keeps id nofun (by simp [drag, Action.IsPlain])

theorem turn_turn (g : Gesture) (p : Point) (amount : Float32) (hit : Hit) (view : Viewport) :
    Turn g (.event (.wheel p amount) hit view) g (turn p amount view) := by
  refine .keeps id (fun _ ↦ id) fun action haction ↦ ?_
  unfold turn at haction
  split_ifs at haction <;> simp_all [Action.IsPlain]

/-- Every input ends the gesture, begins one, or goes on with it. -/
theorem turn_answer (g : Gesture) (input : Input) :
    Turn g input (g.answer input).1 (g.answer input).2 := by
  cases input with
  | event event hit view =>
    cases event with
    | pointerDown p button modifiers => exact g.turn_press p button modifiers hit view
    | pointerMove p modifiers => exact g.turn_drag p modifiers hit view
    | pointerUp p button modifiers => exact .ends _
    | wheel p amount => exact g.turn_turn p amount hit view
  | cancel => exact .ends _

/-- A press goes on with no gesture. -/
theorem not_goesOn_of_mem_press {action : Action} {p : Point} {button : Button}
    {modifiers : Modifiers} {hit : Hit} {view : Viewport}
    (h : action ∈ (g.press p button modifiers hit view).2) : ¬ action.GoesOn := by
  have hbegin (h : action ∈ (beginPan p view).2) : ¬ action.GoesOn := by
    unfold beginPan at h
    split_ifs at h <;> simp_all [Action.GoesOn]
  unfold press at h
  dsimp only at h
  split_ifs at h
  · exact absurd h List.not_mem_nil
  · exact absurd h List.not_mem_nil
  · exact hbegin h
  · exact absurd h List.not_mem_nil
  · cases hit with
    | dot d => exact absurd h List.not_mem_nil
    | deleteTarget id => simp_all [Action.GoesOn]
    | node id origin =>
      simp only [List.mem_cons, List.not_mem_nil, or_false] at h
      rcases h with rfl | rfl <;> exact not_false
    | canvas =>
      rcases List.mem_cons.mp h with rfl | h
      · exact not_false
      · exact hbegin h

/-- A release goes on with the gesture that it ends. -/
theorem fits_release {action : Action} {p : Point} {button : Button} {modifiers : Modifiers}
    {hit : Hit} {view : Viewport} (h : action ∈ (g.release p hit view).2) :
    (g.release p hit view).2 = [action] ∧
      action.Fits g (.event (.pointerUp p button modifiers) hit view) := by
  cases g with
  | idle => exact absurd h List.not_mem_nil
  | dragging id grip =>
    obtain rfl := List.mem_singleton.mp h
    exact ⟨rfl, grip, rfl⟩
  | panning =>
    obtain rfl := List.mem_singleton.mp h
    exact ⟨rfl, rfl⟩
  | connecting start pointer =>
    cases hit with
    | dot stop =>
      by_cases hends : stop.kind = .input ∧ stop.node ≠ start.node
      · have hasked : (release (.connecting start pointer) p (.dot stop) view).2 =
            [.connect start.node stop.node] := if_pos hends
        rw [hasked] at h
        obtain rfl := List.mem_singleton.mp h
        exact ⟨hasked, start, pointer, stop, rfl, rfl, rfl, rfl, hends.1, hends.2.symm⟩
      · have hasked : (release (.connecting start pointer) p (.dot stop) view).2 = [] :=
          if_neg hends
        rw [hasked] at h
        exact absurd h List.not_mem_nil
    | _ => exact absurd h List.not_mem_nil

/-- An action that goes on with a gesture, or ends it, is asked for alone, and only in the state of
that gesture. -/
theorem fits_of_mem {action : Action} (h : action ∈ (g.answer input).2) (hon : action.GoesOn) :
    (g.answer input).2 = [action] ∧ action.Fits g input := by
  cases input with
  | event event hit view =>
    cases event with
    | pointerDown p button modifiers => exact absurd hon (not_goesOn_of_mem_press h)
    | pointerMove p modifiers =>
      cases g with
      | dragging id grip =>
        obtain rfl := List.mem_singleton.mp h
        exact ⟨rfl, grip, rfl⟩
      | panning =>
        obtain rfl := List.mem_singleton.mp h
        exact ⟨rfl, rfl⟩
      | _ => exact absurd h List.not_mem_nil
    | pointerUp p button modifiers => exact fits_release h
    | wheel p amount =>
      have h : action ∈ turn p amount view := h
      unfold turn at h
      split_ifs at h <;> simp_all [Action.GoesOn]
  | cancel =>
    by_cases hg : g = .panning
    · have hasked : (g.answer .cancel).2 = [.endPan] := if_pos hg
      rw [hasked] at h
      obtain rfl := List.mem_singleton.mp h
      exact ⟨hasked, hg⟩
    · have hasked : (g.answer .cancel).2 = [] := if_neg hg
      rw [hasked] at h
      exact absurd h List.not_mem_nil

/-! ### What a state stands for -/

/-- A pan was begun and has not been ended. -/
def PanIsOpen (actions : List Action) : Prop :=
  ∃ first pointer last, actions = first ++ .startPan pointer :: last ∧ .endPan ∉ last

/-- Among the inputs there is a press on a node. It was the last to select anything, and the gesture
has not been ended since. -/
structure Drags (id : NodeId) (inputs earlier : List Input) (press : Input) (later : List Input) :
    Prop where
  split : inputs = earlier ++ press :: later
  pressed : ∃ origin, press.IsPressOn (.node id origin)
  asks : asks earlier press = [.select (some id), .bringToFront id]
  asked : ∃ last, asked inputs = asked earlier ++ [.select (some id), .bringToFront id] ++ last ∧
    ∀ chosen, .select chosen ∉ last
  lasts : ∀ input ∈ later, ¬ input.IsEnd

/-- Among the inputs there is a press on an output dot, with which the machine began to draw a
connection. It has been drawing it since, and nothing has given it up. -/
structure Draws (start : Dot) (inputs earlier : List Input) (press : Input) (later : List Input) :
    Prop where
  split : inputs = earlier ++ press :: later
  pressed : press.IsPressOn (.dot start)
  kind : start.kind = .output
  entered : (after earlier).isConnecting = false
  stays : ∀ middle, middle <+: later →
    ∃ pointer, after (earlier ++ press :: middle) = .connecting start pointer
  lasts : ∀ input ∈ later, ¬ input.IsEnd ∧ ¬ input.IsPressOnCanvas

/-- The state after some inputs, with the piece of history it stands for. -/
structure Recorded (inputs : List Input) : Prop where
  panning : after inputs = .panning → PanIsOpen (asked inputs)
  dragging : ∀ id grip, after inputs = .dragging id grip →
    ∃ earlier press later, Drags id inputs earlier press later
  connecting : ∀ start pointer, after inputs = .connecting start pointer →
    ∃ earlier press later, Draws start inputs earlier press later

theorem PanIsOpen.append {actions more : List Action} (h : PanIsOpen actions)
    (hmore : ∀ action ∈ more, action.IsPlain) : PanIsOpen (actions ++ more) := by
  obtain ⟨first, pointer, last, rfl, hlast⟩ := h
  refine ⟨first, pointer, last ++ more, by simp, fun hend ↦ ?_⟩
  rcases List.mem_append.mp hend with hend | hend
  · exact hlast hend
  · exact hmore _ hend

section

variable {inputs earlier later : List Input} {press : Input}

theorem Drags.concat {id : NodeId} (h : Drags id inputs earlier press later)
    (hend : ¬ input.IsEnd) (hplain : ∀ action ∈ Gesture.asks inputs input, action.IsPlain) :
    Drags id (inputs ++ [input]) earlier press (later ++ [input]) := by
  obtain ⟨last, hasked, hlast⟩ := h.asked
  refine ⟨by rw [h.split]; simp, h.pressed, h.asks, ⟨last ++ Gesture.asks inputs input, ?_, ?_⟩, ?_⟩
  · rw [asked_concat, hasked, List.append_assoc]
  · intro chosen hchosen
    rcases List.mem_append.mp hchosen with hchosen | hchosen
    · exact hlast chosen hchosen
    · exact hplain _ hchosen
  · intro other hother
    rcases List.mem_append.mp hother with hother | hother
    · exact h.lasts other hother
    · rwa [List.mem_singleton.mp hother]

theorem Draws.concat {start : Dot} (h : Draws start inputs earlier press later)
    (hafter : ∃ pointer, after (inputs ++ [input]) = .connecting start pointer)
    (hend : ¬ input.IsEnd) (hcanvas : ¬ input.IsPressOnCanvas) :
    Draws start (inputs ++ [input]) earlier press (later ++ [input]) := by
  have hsplit : inputs ++ [input] = earlier ++ press :: (later ++ [input]) := by
    rw [h.split]
    simp
  refine ⟨hsplit, h.pressed, h.kind, h.entered, fun middle hmiddle ↦ ?_, fun other hother ↦ ?_⟩
  · rcases List.prefix_concat_iff.mp hmiddle with rfl | hmiddle
    · rwa [← hsplit]
    · exact h.stays middle hmiddle
  · rcases List.mem_append.mp hother with hother | hother
    · exact h.lasts other hother
    · rw [List.mem_singleton.mp hother]
      exact ⟨hend, hcanvas⟩

/-- One more input leaves the state with its piece of history. -/
theorem Recorded.concat (h : Recorded inputs) (input : Input) : Recorded (inputs ++ [input]) := by
  have hturn : Turn (after inputs) input (after (inputs ++ [input])) (asks inputs input) := by
    rw [after_concat]
    exact turn_answer _ _
  have hasked := asked_concat inputs input
  generalize hafter : after (inputs ++ [input]) = g at hturn
  generalize hasks : asks inputs input = actions at hturn hasked
  -- The history so far matters only to a turn that goes on with a gesture.
  cases hturn with
  | ends => exact ⟨by simp [hafter], by simp [hafter], by simp [hafter]⟩
  | pans first pointer =>
    refine ⟨fun _ ↦ ⟨asked inputs ++ first, pointer, [], ?_, List.not_mem_nil⟩, ?_, ?_⟩
    · rw [hasked, List.append_assoc]
    · simp [hafter]
    · simp [hafter]
  | @takes id origin grip hpress =>
    refine ⟨by simp [hafter], fun other grip' heq ↦ ?_, by simp [hafter]⟩
    obtain ⟨rfl, -⟩ := Gesture.dragging.inj (hafter.symm.trans heq)
    exact ⟨inputs, input, [], rfl, ⟨origin, hpress⟩, hasks, ⟨[], by rw [hasked]; simp, by simp⟩,
      by simp⟩
  | @draws start pointer hpress hkind hidle =>
    refine ⟨by simp [hafter], by simp [hafter], fun other pointer' heq ↦ ?_⟩
    obtain ⟨rfl, -⟩ := Gesture.connecting.inj (hafter.symm.trans heq)
    refine ⟨inputs, input, [], rfl, hpress, hkind, hidle, fun middle hmiddle ↦ ?_, by simp⟩
    rw [List.prefix_nil.mp hmiddle]
    exact ⟨pointer, hafter⟩
  | @follows start old pointer hg hend hcanvas =>
    refine ⟨by simp [hafter], by simp [hafter], fun other pointer' heq ↦ ?_⟩
    obtain ⟨rfl, -⟩ := Gesture.connecting.inj (hafter.symm.trans heq)
    obtain ⟨earlier, press, later, hdraws⟩ := h.connecting start old hg
    exact ⟨earlier, press, later ++ [input], hdraws.concat ⟨pointer, hafter⟩ hend hcanvas⟩
  | keeps hend hcanvas hplain =>
    refine ⟨fun hpan ↦ ?_, fun id grip hdrag ↦ ?_, fun start pointer hdraw ↦ ?_⟩
    · rw [hasked]
      exact (h.panning (hafter.symm.trans hpan)).append hplain
    · obtain ⟨earlier, press, later, hdrags⟩ := h.dragging id grip (hafter.symm.trans hdrag)
      exact ⟨earlier, press, later ++ [input], hdrags.concat hend (hasks ▸ hplain)⟩
    · have hg := hafter.symm.trans hdraw
      obtain ⟨earlier, press, later, hdraws⟩ := h.connecting start pointer hg
      exact ⟨earlier, press, later ++ [input],
        hdraws.concat ⟨pointer, hdraw⟩ hend (hcanvas (by rw [hg]; rfl))⟩

end

theorem recorded (inputs : List Input) : Recorded inputs := by
  induction inputs using List.reverseRecOn with
  | nil => exact ⟨nofun, nofun, nofun⟩
  | append_singleton inputs input ih => exact ih.concat input

/-! ### All inputs -/

/-- The actions asked for at some inputs come in a sensible order. -/
structure Orderly (inputs : List Input) : Prop where
  /-- A pan is moved or ended only while it is open. -/
  pan : ∀ before input rest, inputs = before ++ input :: rest → ∀ action ∈ asks before input,
    (action = .endPan ∨ ∃ pointer, action = .updatePan pointer) →
      asks before input = [action] ∧ PanIsOpen (asked before)
  /-- A node is moved only by a drag that began with a press on it. -/
  move : ∀ before input rest, inputs = before ++ input :: rest → ∀ id origin,
    .moveNode id origin ∈ asks before input →
      asks before input = [.moveNode id origin] ∧
        ∃ earlier press later, Drags id before earlier press later
  /-- A connection is made by a release over an input dot, after a press on an output dot. -/
  connect : ∀ before input rest, inputs = before ++ input :: rest → ∀ source target,
    .connect source target ∈ asks before input →
      source ≠ target ∧
        (∃ stop, input.IsReleaseOver (.dot stop) ∧ stop.kind = .input ∧ stop.node = target) ∧
          ∃ start earlier press later, start.node = source ∧ Draws start before earlier press later
  /-- A connection is drawn from an output dot. -/
  draw : ∀ before rest, inputs = before ++ rest → ∀ start pointer,
    after before = .connecting start pointer → start.kind = .output

/-- Whatever an idle machine is told, the actions it asks for come in a sensible order. -/
theorem orderly (inputs : List Input) : Orderly inputs := by
  refine ⟨fun before input _ _ action haction hpan ↦ ?_,
    fun before input _ _ id origin haction ↦ ?_,
    fun before input _ _ source target haction ↦ ?_, fun before _ _ start pointer hdraw ↦ ?_⟩
  · rcases hpan with rfl | ⟨pointer, rfl⟩
    · obtain ⟨hasks, hfits⟩ := fits_of_mem haction trivial
      exact ⟨hasks, (recorded before).panning hfits⟩
    · obtain ⟨hasks, hfits⟩ := fits_of_mem haction trivial
      exact ⟨hasks, (recorded before).panning hfits⟩
  · obtain ⟨hasks, grip, hfits⟩ := fits_of_mem haction trivial
    exact ⟨hasks, (recorded before).dragging id grip hfits⟩
  · obtain ⟨-, start, pointer, stop, hg, hover, rfl, rfl, hkind, hne⟩ := fits_of_mem haction trivial
    obtain ⟨earlier, press, later, hdraws⟩ := (recorded before).connecting start pointer hg
    exact ⟨hne, ⟨stop, hover, hkind, rfl⟩, start, earlier, press, later, rfl, hdraws⟩
  · obtain ⟨earlier, press, later, hdraws⟩ := (recorded before).connecting start pointer hdraw
    exact hdraws.kind

/-- A node is pressed, and a second button before it is moved and released; then a connection is
drawn between two nodes, over a press of the middle button. -/
example :
    asked
      [.event (.pointerDown ⟨1, 2⟩ .primary {}) (.node ⟨"a"⟩ ⟨0, 0⟩) (.new .standard),
        .event (.pointerDown ⟨1, 2⟩ .secondary {}) .canvas (.new .standard),
        .event (.pointerMove ⟨5, 5⟩ {}) .canvas (.new .standard),
        .event (.pointerUp ⟨6, 5⟩ .primary {}) .canvas (.new .standard),
        .event (.pointerDown ⟨0, 0⟩ .primary {}) (.dot ⟨⟨"a"⟩, .output, ⟨0, 0⟩⟩) (.new .standard),
        .event (.pointerDown ⟨9, 9⟩ .middle {}) (.node ⟨"b"⟩ ⟨8, 8⟩) (.new .standard),
        .event (.pointerUp ⟨9, 9⟩ .middle {}) (.dot ⟨⟨"b"⟩, .input, ⟨9, 9⟩⟩) (.new .standard)] =
      [.select (some ⟨"a"⟩), .bringToFront ⟨"a"⟩, .moveNode ⟨"a"⟩ ⟨4, 3⟩,
        .moveNode ⟨"a"⟩ ⟨5, 3⟩, .connect ⟨"a"⟩ ⟨"b"⟩] := by
  decide +kernel

end Gesture

end LayerCanvas
