import LayerCanvas.Proofs.Graph.WellFormed
import LayerCanvas.Proofs.Session.Run

/-!
What a request can do to a session. Minor changes leave the animations alone: the view, the gesture,
the looks of the nodes, what is selected and what is pointed at. Major changes are those that start
or end animations. Every request is a sequence of minor changes with at most one major change at the
end, and what it does to the graph is what some calls do to it.
-/

set_option autoImplicit false
set_option relaxedAutoImplicit false

namespace LayerCanvas

/-- The actions that leave the animations alone. -/
def Action.IsMinor : Action → Prop
  | .connect _ _ | .deleteConnection _ => False
  | _ => True

namespace Gesture

theorem isMinor_beginPan (pointer : Point) (view : Viewport) :
    ∀ action ∈ (beginPan pointer view).2, action.IsMinor := by
  unfold beginPan
  split_ifs <;> simp [Action.IsMinor]

theorem isMinor_turn (p : Point) (amount : Float32) (view : Viewport) :
    ∀ action ∈ turn p amount view, action.IsMinor := by
  unfold turn
  split_ifs <;> simp [Action.IsMinor]

theorem isMinor_drag (g : Gesture) (p : Point) (view : Viewport) :
    ∀ action ∈ (g.drag p view).2, action.IsMinor := by
  cases g <;> simp [drag, Action.IsMinor]

/-- Only a press on a delete target asks for anything but minor actions, and then for one. -/
theorem press_cases (g : Gesture) (p : Point) (button : Button) (modifiers : Modifiers) (hit : Hit)
    (view : Viewport) :
    (∀ action ∈ (g.press p button modifiers hit view).2, action.IsMinor) ∨
      ∃ id, hit = .deleteTarget id ∧
        (g.press p button modifiers hit view).2 = [.deleteConnection id] := by
  unfold press
  dsimp only
  split_ifs
  · left; simp
  · left; simp
  · left
    exact isMinor_beginPan p view
  · left; simp
  · cases hit with
    | dot d => left; simp
    | node id origin => left; simp [Action.IsMinor]
    | deleteTarget id => exact Or.inr ⟨id, rfl, rfl⟩
    | canvas =>
      left
      intro action haction
      rcases List.mem_cons.mp haction with rfl | haction
      · trivial
      · exact isMinor_beginPan p view action haction

/-- Only the end of a connection that is drawn asks for anything but minor actions, and then for
one. -/
theorem release_cases (g : Gesture) (p : Point) (hit : Hit) (view : Viewport) :
    (∀ action ∈ (g.release p hit view).2, action.IsMinor) ∨
      ∃ source target, (g.release p hit view).2 = [.connect source target] := by
  cases g with
  | idle => left; simp [release]
  | dragging id grip => left; simp [release, Action.IsMinor]
  | panning => left; simp [release, Action.IsMinor]
  | connecting source pointer =>
    cases hit with
    | dot target =>
      by_cases hends : target.kind = .input ∧ target.node ≠ source.node
      · exact Or.inr ⟨source.node, target.node, by simp [release, hends]⟩
      · left; simp [release, hends]
    | _ => left; simp [release]

/-- An event asks for minor actions, or for one action. -/
theorem handle_cases (g : Gesture) (event : InputEvent) (hit : Hit) (view : Viewport) :
    (∀ action ∈ (g.handle event hit view).2, action.IsMinor) ∨
      ∃ action, (g.handle event hit view).2 = [action] := by
  cases event with
  | pointerDown p button modifiers =>
    exact (g.press_cases p button modifiers hit view).imp_right fun ⟨_, _, h⟩ ↦ ⟨_, h⟩
  | pointerMove p modifiers => exact Or.inl (g.isMinor_drag p view)
  | pointerUp p button modifiers =>
    exact (g.release_cases p hit view).imp_right fun ⟨_, _, h⟩ ↦ ⟨_, h⟩
  | wheel p amount => exact Or.inl (isMinor_turn p amount view)

end Gesture

namespace Session

/-- What a session has besides its view, its gesture and its settings. -/
def content (s : Session) : Graph × Option NodeId × Option ConnectionId × Nat :=
  (s.graph, s.selected, s.hovered, s.frames)

theorem schedule_eq (s : Session) :
    s.schedule =
      { s with frames := if s.graph.isAnimating then s.frames + 1 else s.frames } := by
  unfold schedule
  split_ifs <;> rfl

@[simp] theorem graph_schedule (s : Session) : s.schedule.graph = s.graph := by rw [schedule_eq]

/-- The changes that leave the animations alone. -/
inductive Minor (s : Session) : Session → Prop
  | look {s' : Session} (h : s'.content = s.content) : Minor s s'
  | select (id : Option NodeId) : Minor s (s.select id)
  | hover (p : Point) : Minor s { s with hovered := s.hoverAt p }
  | edit (call : Call Float32 Float) (h : call.IsEdit) :
    Minor s { s with graph := s.graph.apply call }

/-- The changes that start or end animations. -/
inductive Major (s : Session) : Session → Prop
  | connect (source target : NodeId) (start stop : Point) {graph : Graph} {id : ConnectionId}
    (h : s.graph.addConnection? source target start stop = some (graph, id))
    (hstart : (s.graph.node? source).map Node.outputAnchor = some start)
    (hstop : (s.graph.node? target).map Node.inputAnchor = some stop) :
    Major s { s with graph }.schedule
  | deleteConnection (id : ConnectionId) {graph : Graph}
    (h : s.graph.deleteConnection? id = some graph) :
    Major s
      { s with graph, hovered := if s.hovered = some id then none else s.hovered }.schedule
  | deleteNode (id : NodeId) {graph : Graph} (h : s.graph.deleteNode? id = some graph) :
    Major s
      { s with
        graph
        selected := if s.selected = some id then none else s.selected
        hovered := { s with graph }.liveHover }.schedule
  | clear : Major s s.clear
  | tick (now : Float) (order : SampleOrder Float32) : Major s (s.tickIn now order).1
  | load (text : String) {graph : Graph} (h : s.graph.loadText text = .ok graph) :
    Major s
      { s with graph, gesture := .idle, view := s.view.endPan, selected := none, hovered := none }

/-- Minor changes, and at most one major change after them. -/
def Changes (s s' : Session) : Prop :=
  ∃ t, Relation.ReflTransGen Minor s t ∧ (s' = t ∨ Major t s')

variable {s s' : Session}

/-- What every minor and every major change keeps, their sequences keep. -/
theorem Changes.keep {P : Session → Prop} (h : Changes s s')
    (hminor : ∀ s s', P s → Minor s s' → P s') (hmajor : ∀ s s', P s → Major s s' → P s')
    (hs : P s) : P s' := by
  obtain ⟨t, hsteps, hlast⟩ := h
  have ht : P t := by
    clear hlast
    induction hsteps with
    | refl => exact hs
    | tail _ hstep ih => exact hminor _ _ ih hstep
  rcases hlast with rfl | hlast
  · exact ht
  · exact hmajor _ _ ht hlast

/-! ### Requests -/

theorem Changes.of_minor (h : Minor s s') : Changes s s' := ⟨s', .single h, Or.inl rfl⟩

theorem Changes.of_look (h : s'.content = s.content) : Changes s s' := .of_minor (.look h)

theorem Changes.refl (s : Session) : Changes s s := .of_look rfl

theorem Changes.of_major (h : Major s s') : Changes s s' := ⟨s, .refl, Or.inr h⟩

theorem Changes.after {t : Session} (h : Changes t s') (ht : Minor s t) : Changes s s' := by
  obtain ⟨u, hminor, hlast⟩ := h
  exact ⟨u, .head ht hminor, hlast⟩

/-- A request that may be refused changes nothing then. -/
theorem Changes.of_option {result : Option Session} (h : ∀ s', result = some s' → Changes s s') :
    Changes s (result.getD s) := by
  cases hresult : result with
  | none => exact .refl s
  | some s' => exact h s' hresult

theorem content_zoom? {direction : ZoomDirection} (h : s.zoom? direction = some s') :
    s'.content = s.content := by
  obtain ⟨view, -, rfl⟩ := Option.map_eq_some_iff.mp h
  rfl

theorem content_fit? (h : s.fit? = some s') : s'.content = s.content := by
  obtain ⟨view, -, rfl⟩ := Option.map_eq_some_iff.mp h
  rfl

theorem content_cancelGesture (s : Session) : s.cancelGesture.content = s.content := by
  unfold cancelGesture Gesture.cancel
  split_ifs <;> rfl

theorem content_setLocked (s : Session) (locked : Bool) :
    (s.setLocked locked).content = s.content := by
  unfold setLocked
  dsimp only
  split_ifs
  · exact content_cancelGesture _
  · rfl

theorem minor_drop? {payload : String} {p : Point} {id : NodeId}
    (h : s.drop? payload p = some (s', id)) : Minor s s' := by
  unfold drop? at h
  obtain ⟨layer, -, h⟩ := Option.bind_eq_some_iff.mp h
  dsimp only at h
  split at h
  · cases h
  · cases h
    exact .edit (.addNode layer _) trivial

theorem minor_setParam (s : Session) (id : NodeId) (name : String) (value : ParamValue) :
    Minor s ((s.setParam id name value).toOption.getD s) := by
  have hedit : (s.setParam id name value).toOption.getD s =
      { s with graph := s.graph.apply (.setParam id name value) } := by
    cases h : s.graph.setParam id name value <;> simp [setParam, Graph.apply, h, Except.map,
      Except.toOption]
  rw [hedit]
  exact .edit (.setParam id name value) trivial

theorem changes_connect (s : Session) (source target : NodeId) :
    Changes s (((s.connect? source target).map Prod.fst).getD s) := by
  refine .of_option fun s' h ↦ ?_
  obtain ⟨⟨made, id⟩, hmade, rfl⟩ := Option.map_eq_some_iff.mp h
  obtain ⟨source', hsource, hmade⟩ := Option.bind_eq_some_iff.mp hmade
  obtain ⟨target', htarget, hmade⟩ := Option.bind_eq_some_iff.mp hmade
  obtain ⟨⟨graph, id'⟩, hgraph, hmade⟩ := Option.bind_eq_some_iff.mp hmade
  cases hmade
  exact .of_major (.connect source target _ _ hgraph (by rw [hsource]; rfl) (by rw [htarget]; rfl))

theorem changes_deleteConnection (s : Session) (id : ConnectionId) :
    Changes s ((s.deleteConnection? id).getD s) := by
  refine .of_option fun s' h ↦ ?_
  obtain ⟨graph, hgraph, rfl⟩ := Option.map_eq_some_iff.mp h
  exact .of_major (.deleteConnection id hgraph)

theorem changes_deleteNode (s : Session) (id : NodeId) :
    Changes s ((s.deleteNode? id).getD s) := by
  refine .of_option fun s' h ↦ ?_
  obtain ⟨graph, hgraph, rfl⟩ := Option.map_eq_some_iff.mp h
  exact .of_major (.deleteNode id hgraph)

theorem changes_deleteSelected (s : Session) : Changes s (s.deleteSelected?.getD s) := by
  unfold deleteSelected?
  cases s.selected with
  | none => exact .refl s
  | some id => exact s.changes_deleteNode id

theorem changes_load (s : Session) (text : String) :
    Changes s ((s.load text).toOption.getD s) := by
  unfold load
  cases h : s.graph.loadText text with
  | error fault => exact .refl s
  | ok graph => exact .of_major (.load text h)

theorem changes_runShortcut (s : Session) (shortcut : Shortcut) :
    Changes s (s.runShortcut shortcut) := by
  cases shortcut with
  | zoomIn => exact .of_option fun _ h ↦ .of_look (content_zoom? h)
  | zoomOut => exact .of_option fun _ h ↦ .of_look (content_zoom? h)
  | resetView => exact .of_look rfl
  | fitView => exact .of_option fun _ h ↦ .of_look (content_fit? h)
  | toggleLock => exact .of_look (content_setLocked s _)
  | deleteSelected => exact s.changes_deleteSelected
  | cancel =>
    exact (Changes.of_minor (.select none)).after (.look s.content_cancelGesture)

/-! ### Actions -/

theorem minor_apply (s : Session) {action : Action} (h : action.IsMinor) :
    Minor s (s.apply action) := by
  cases action with
  | select id => exact .select id
  | bringToFront id => exact .edit (.bringToFront id) trivial
  | moveNode id origin => exact .edit (.moveNode id origin) trivial
  | connect source target => exact h.elim
  | deleteConnection id => exact h.elim
  | _ => exact .look rfl

theorem changes_apply (s : Session) (action : Action) : Changes s (s.apply action) := by
  cases action with
  | connect source target => exact s.changes_connect source target
  | deleteConnection id => exact s.changes_deleteConnection id
  | _ => exact .of_minor (s.minor_apply trivial)

theorem minor_applyAll (s : Session) {actions : List Action}
    (h : ∀ action ∈ actions, action.IsMinor) :
    Relation.ReflTransGen Minor s (s.applyAll actions) := by
  induction actions generalizing s with
  | nil => exact .refl
  | cons action rest ih =>
    have hfirst := s.minor_apply (h action List.mem_cons_self)
    exact .head hfirst (ih _ fun other hother ↦ h other (List.mem_cons_of_mem _ hother))

theorem changes_applyAll (s : Session) {actions : List Action}
    (h : (∀ action ∈ actions, action.IsMinor) ∨ ∃ action, actions = [action]) :
    Changes s (s.applyAll actions) := by
  rcases h with hminor | ⟨action, rfl⟩
  · exact ⟨_, s.minor_applyAll hminor, Or.inl rfl⟩
  · exact s.changes_apply action

theorem changes_handle (s : Session) (event : InputEvent) : Changes s (s.handle event) := by
  have hactions (t : Session) (hit : Hit) :
      Changes t ({ t with gesture := (s.gesture.handle event hit s.view).1 }.applyAll
        (s.gesture.handle event hit s.view).2) :=
    (changes_applyAll _ (s.gesture.handle_cases event hit s.view)).after (.look rfl)
  cases event with
  | pointerMove p modifiers =>
    by_cases hidle : s.gesture = .idle
    · have hhover := (hactions { s with hovered := s.hoverAt p } .canvas).after (.hover p)
      simpa [handle, hidle] using hhover
    · simpa [handle, hidle] using hactions s .canvas
  | pointerDown p button modifiers => exact hactions s (s.hit p)
  | pointerUp p button modifiers => exact hactions s (s.hit p)
  | wheel p amount => exact hactions s .canvas

/-- A request is minor changes, and at most one major change after them. -/
theorem changes_serve (s : Session) (request : Request) : Changes s (s.serve request) := by
  cases request with
  | input event => exact s.changes_handle event
  | key key modifiers =>
    refine .of_option fun s' h ↦ ?_
    obtain ⟨shortcut, -, rfl⟩ := Option.map_eq_some_iff.mp h
    exact s.changes_runShortcut shortcut
  | drop payload p =>
    refine .of_option fun s' h ↦ ?_
    obtain ⟨⟨made, id⟩, hmade, rfl⟩ := Option.map_eq_some_iff.mp h
    exact .of_minor (minor_drop? hmade)
  | zoom direction => exact .of_option fun _ h ↦ .of_look (content_zoom? h)
  | fit => exact .of_option fun _ h ↦ .of_look (content_fit? h)
  | setLocked locked => exact .of_look (s.content_setLocked locked)
  | toggleLock => exact .of_look (s.content_setLocked _)
  | select id => exact .of_minor (.select id)
  | connect source target => exact s.changes_connect source target
  | deleteConnection id => exact s.changes_deleteConnection id
  | deleteNode id => exact s.changes_deleteNode id
  | deleteSelected => exact s.changes_deleteSelected
  | clear => exact .of_major .clear
  | setParam id name value => exact .of_minor (s.minor_setParam id name value)
  | tick now order => exact .of_major (.tick now order)
  | load text => exact s.changes_load text
  | drawNames count => exact .of_minor (.edit (.drawNames count) trivial)
  | _ => exact .of_look rfl

/-! ### The graph of a session -/

/-- What a minor change does to the graph is what some calls do to it. -/
theorem Minor.exists_calls (h : Minor s s') : ∃ calls, s'.graph = s.graph.applyAll calls := by
  cases h with
  | look h => exact ⟨[], congrArg Prod.fst h⟩
  | select id => exact ⟨[], rfl⟩
  | hover p => exact ⟨[], rfl⟩
  | edit call h => exact ⟨[call], rfl⟩

/-- What a major change does to the graph is what one call does to it. -/
theorem Major.exists_call (h : Major s s') : ∃ call, s'.graph = s.graph.apply call := by
  cases h with
  | connect source target start stop h =>
    exact ⟨.addConnection source target start stop, by simp [Graph.apply, h]⟩
  | deleteConnection id h =>
    exact ⟨.deleteConnection id, by simp [Graph.apply, Graph.deleteConnection, h]⟩
  | deleteNode id h => exact ⟨.deleteNode id, by simp [Graph.apply, Graph.deleteNode, h]⟩
  | clear => exact ⟨.clear, by simp [Graph.apply, Session.clear]⟩
  | tick now order => exact ⟨.tick now order, rfl⟩
  | load text h =>
    refine ⟨.loadDocument (Snapshot.parse? text), ?_⟩
    rw [Graph.loadText_eq] at h
    simp [Graph.apply, h, Except.toOption]

theorem Minor.wellFormed (h : Minor s s') (hwell : s.graph.WellFormed) : s'.graph.WellFormed := by
  obtain ⟨calls, hcalls⟩ := h.exists_calls
  rw [hcalls]
  exact hwell.applyAll calls

theorem Major.wellFormed (h : Major s s') (hwell : s.graph.WellFormed) : s'.graph.WellFormed := by
  obtain ⟨call, hcall⟩ := h.exists_call
  rw [hcall]
  exact hwell.apply call

theorem Changes.exists_calls (h : Changes s s') : ∃ calls, s'.graph = s.graph.applyAll calls := by
  have hafter {t t' : Session} (ht : ∃ calls, t.graph = s.graph.applyAll calls)
      (ht' : ∃ calls, t'.graph = t.graph.applyAll calls) :
      ∃ calls, t'.graph = s.graph.applyAll calls := by
    obtain ⟨first, hfirst⟩ := ht
    obtain ⟨second, hsecond⟩ := ht'
    exact ⟨first ++ second, by rw [hsecond, hfirst, Graph.applyAll_append]⟩
  refine h.keep (P := fun t ↦ ∃ calls, t.graph = s.graph.applyAll calls)
    (fun t t' ht hstep ↦ hafter ht hstep.exists_calls)
    (fun t t' ht hstep ↦ hafter ht ?_) ⟨[], rfl⟩
  obtain ⟨call, hcall⟩ := hstep.exists_call
  exact ⟨[call], hcall⟩

/-- The graph of a run of a session is the graph of a run of calls. -/
theorem exists_calls_run (config : EditorConfig) (requests : List Request) :
    ∃ calls, (run config requests).graph = Graph.run config 1 calls := by
  refine run_induction (P := fun s ↦ ∃ calls, s.graph = Graph.run config 1 calls) ⟨[], rfl⟩
    (fun s request ih ↦ ?_) requests
  obtain ⟨first, hfirst⟩ := ih
  obtain ⟨second, hsecond⟩ := (s.changes_serve request).exists_calls
  exact ⟨first ++ second, by rw [hsecond, hfirst, Graph.run_append]⟩

end Session

end LayerCanvas
