import LayerCanvas.Proofs.Graph.Load
import LayerCanvas.Proofs.Session.Change

/-!
The frames a session asks for. Animations begin deep in the graph, when nodes are connected and when
something is deleted, and each of them needs a frame for its next tick. A session asks for one
exactly when animations are under way after a change that may have begun one and after a tick, so
that they neither stall nor spin: at every moment at which animations are under way a frame has been
asked for in the last tick or after it, and none is asked for while nothing moves.
-/

set_option autoImplicit false
set_option relaxedAutoImplicit false

namespace LayerCanvas

/-! ### The part of a list from its last mark on -/

section

variable {α : Type} {marked : α → Bool} {P : List α → α → Prop} {requests : List α} {request : α}

/-- The last marked request or one that comes after it, or any request if none is marked, has a
property. What came before a request may matter to that. -/
def SinceLast (marked : α → Bool) (P : List α → α → Prop) (requests : List α) : Prop :=
  ∃ before request after, requests = before ++ request :: after ∧ P before request ∧
    ∀ later ∈ after, marked later = false

theorem SinceLast.concat (h : P requests request) : SinceLast marked P (requests ++ [request]) :=
  ⟨requests, request, [], rfl, h, List.forall_mem_nil _⟩

theorem SinceLast.extend (h : SinceLast marked P requests) (hrequest : marked request = false) :
    SinceLast marked P (requests ++ [request]) := by
  obtain ⟨before, found, after, rfl, hfound, hafter⟩ := h
  refine ⟨before, found, after ++ [request], by simp, hfound, fun later hlater ↦ ?_⟩
  rcases List.mem_append.mp hlater with hlater | hlater
  · exact hafter later hlater
  · rw [List.mem_singleton.mp hlater]
    exact hrequest

end

/-! ### The frames of a session -/

namespace Session

variable {s s' : Session}

/-- What a change does about frames: it asks for none and begins no animation, or it asks for one
and animations are under way. -/
inductive Paced (s s' : Session) : Prop
  | silent (hframes : s'.frames = s.frames)
    (h : s'.graph.isAnimating = true → s.graph.isAnimating = true)
  | asks (hframes : s'.frames = s.frames + 1) (h : s'.graph.isAnimating = true)

/-- A change that asks for a frame exactly if animations are under way after it. -/
theorem Paced.of_frames
    (h : s'.frames = if s'.graph.isAnimating then s.frames + 1 else s.frames) : Paced s s' := by
  cases hmoves : s'.graph.isAnimating with
  | true => exact .asks (by rw [h, if_pos hmoves]) hmoves
  | false =>
    refine .silent (by rw [h, if_neg (by simp [hmoves])]) fun hmoving ↦ ?_
    rw [hmoves] at hmoving
    cases hmoving

theorem Paced.schedule {t : Session} (hframes : t.frames = s.frames) : Paced s t.schedule := by
  refine .of_frames ?_
  rw [graph_schedule, schedule_eq, hframes]

/-- A minor change neither asks for a frame nor begins or ends an animation. -/
theorem Minor.frames_eq (h : Minor s s') :
    s'.frames = s.frames ∧ s'.graph.isAnimating = s.graph.isAnimating := by
  cases h with
  | look hsame =>
    simp only [content, Prod.mk.injEq] at hsame
    obtain ⟨hgraph, -, -, hframes⟩ := hsame
    exact ⟨hframes, congrArg Graph.isAnimating hgraph⟩
  | select id => exact ⟨rfl, rfl⟩
  | hover p => exact ⟨rfl, rfl⟩
  | edit call hedit =>
    obtain ⟨-, -, -, hanimator⟩ := s.graph.edit_frame hedit
    exact ⟨rfl, by rw [Graph.isAnimating, hanimator, ← Graph.isAnimating]⟩

/-- After a tick a frame is asked for exactly if animations are under way. -/
theorem frames_tickIn (s : Session) (now : Float) (order : SampleOrder Float32) :
    (s.tickIn now order).1.frames =
      if (s.tickIn now order).1.graph.isAnimating then s.frames + 1 else s.frames := rfl

theorem Major.paced (h : Major s s') : Paced s s' := by
  cases h with
  | connect source target start stop h => exact .schedule rfl
  | deleteConnection id h => exact .schedule rfl
  | deleteNode id h => exact .schedule rfl
  | clear => exact .schedule rfl
  | tick now order => exact .of_frames (s.frames_tickIn now order)
  | load text h =>
    refine .silent rfl fun hmoves ↦ ?_
    obtain ⟨_, -, hload⟩ := Graph.exists_load_of_loadText h
    rw [(Graph.atRest_load hload).isAnimating] at hmoves
    cases hmoves

theorem paced_serve (s : Session) (request : Request) : Paced s (s.serve request) := by
  obtain ⟨t, hminor, hlast⟩ := s.changes_serve request
  have hstill : t.frames = s.frames ∧ t.graph.isAnimating = s.graph.isAnimating := by
    clear hlast
    induction hminor with
    | refl => exact ⟨rfl, rfl⟩
    | tail _ hstep ih => exact ⟨hstep.frames_eq.1.trans ih.1, hstep.frames_eq.2.trans ih.2⟩
  obtain ⟨hframes, hmoves⟩ := hstill
  rcases hlast with heq | hmajor
  · rw [heq]
    exact .silent hframes fun h ↦ hmoves ▸ h
  · rcases hmajor.paced with ⟨hsame, hkept⟩ | ⟨hasked, hmoving⟩
    · exact .silent (hsame.trans hframes) fun h ↦ hmoves ▸ hkept h
    · exact .asks (hasked.trans (by rw [hframes])) hmoving

/-- A session that serves a request asks for a frame. -/
def Asks (s : Session) (request : Request) : Prop := (s.serve request).frames = s.frames + 1

/-- A request begins an animation only if it asks for a frame, and a tick must ask for another one
while animations go on. -/
theorem asks_or_kept (s : Session) (request : Request)
    (hmoves : (s.serve request).graph.isAnimating = true) :
    s.Asks request ∨ request.isTick = false ∧ s.graph.isAnimating = true := by
  cases htick : request.isTick with
  | true =>
    left
    cases request with
    | tick now order => exact (frames_tickIn s now order).trans (if_pos hmoves)
    | _ => cases htick
  | false =>
    rcases s.paced_serve request with ⟨-, hkept⟩ | ⟨hasked, -⟩
    · exact Or.inr ⟨rfl, hkept hmoves⟩
    · exact Or.inl hasked

/-- While animations are under way, a frame has been asked for in the last tick or after it. -/
theorem asks_since_tick (config : EditorConfig) (requests : List Request)
    (hmoves : (run config requests).graph.isAnimating = true) :
    SinceLast Request.isTick (fun before request ↦ (run config before).Asks request) requests := by
  induction requests using List.reverseRecOn with
  | nil => cases hmoves
  | append_singleton requests request ih =>
    rw [run_concat] at hmoves
    rcases asks_or_kept _ request hmoves with hasks | ⟨htick, hkept⟩
    · exact .concat hasks
    · exact (ih hkept).extend htick

end Session

end LayerCanvas
