import LayerCanvas.Proofs.Graph.Stranded
import LayerCanvas.Proofs.Session.Calls

/-!
Fades in a session. Whether a connection is stranded after a run can be read off the run: one of its
ticks came at a time at which it could not be told how long some fade had been running, and nothing
has been loaded since.
-/

set_option autoImplicit false
set_option relaxedAutoImplicit false

namespace LayerCanvas

/-- What an element of a list begins holds until a later one ends it. -/
theorem holds_iff_begun {α : Type} (P : List α → Prop) (Begins Ends : List α → α → Prop)
    (hnil : ¬ P []) (hstep : ∀ l a, P (l ++ [a]) ↔ Begins l a ∨ P l ∧ ¬ Ends l a) (l : List α) :
    P l ↔ ∃ first a last, l = first ++ a :: last ∧ Begins first a ∧
      ∀ middle b, middle ++ [b] <+: last → ¬ Ends (first ++ a :: middle) b := by
  induction l using List.reverseRecOn with
  | nil => simp [hnil]
  | append_singleton l final ih =>
    rw [hstep, ih]
    constructor
    · rintro (hbegins | ⟨⟨first, a, last, rfl, hbegins, hnone⟩, hends⟩)
      · exact ⟨l, final, [], rfl, hbegins, fun middle b h ↦ by simp at h⟩
      · refine ⟨first, a, last ++ [final], by simp, hbegins, fun middle b h ↦ ?_⟩
        rcases List.prefix_concat_iff.mp h with heq | h
        · obtain ⟨rfl, rfl⟩ := List.append_singleton_inj.mp heq
          exact hends
        · exact hnone middle b h
    · rintro ⟨first, a, last, heq, hbegins, hnone⟩
      -- Either the last element began it, or an earlier one did.
      rcases List.eq_nil_or_concat' last with rfl | ⟨last, other, rfl⟩
      · obtain ⟨rfl, rfl⟩ := List.append_singleton_inj.mp heq
        exact Or.inl hbegins
      · have heq : l ++ [final] = (first ++ a :: last) ++ [other] := by
          rw [heq, List.append_assoc, List.cons_append]
        obtain ⟨rfl, rfl⟩ := List.append_singleton_inj.mp heq
        refine Or.inr ⟨⟨first, a, last, rfl, hbegins, fun middle b h ↦ ?_⟩,
          hnone last final (List.prefix_refl _)⟩
        exact hnone middle b (h.trans (List.prefix_append _ _))

theorem Call.Spares.isPlain {C R : Type} {call : Call C R} (h : call.Spares) : call.IsPlain := by
  cases call <;> first | exact h.elim | trivial

namespace Session

variable {s : Session}

/-- Only ticks and loads ask for calls that tick or load. -/
theorem isPlain_of_mem_calls {request : Request} (htick : ∀ now order, request ≠ .tick now order)
    (hload : ∀ text, request ≠ .load text) {call : GraphCall} (h : call ∈ s.calls request) :
    call.IsPlain := by
  have hcauses := s.causes_calls request
  generalize s.calls request = calls at hcauses h
  cases hcauses with
  | spares hspares => exact (hspares call h).isPlain
  | deletes _ =>
    rw [List.mem_singleton.mp h]
    trivial
  | clears _ =>
    rw [List.mem_singleton.mp h]
    trivial
  | ticks heq => exact absurd heq (htick _ _)
  | loads heq => exact absurd heq (hload _)

/-- What one request does to stranded connections. -/
theorem stranded_serve_iff (hwf : s.graph.WellFormed) {config : EditorConfig}
    (hm : s.graph.Measured config) (request : Request) :
    (∃ d, (s.serve request).graph.Stranded d) ↔
      (∃ now order, request = .tick now order ∧ s.graph.Strands now) ∨
        (∃ c, s.graph.Stranded c) ∧ ¬ s.Loads request := by
  -- Only ticks strand connections, and only loads put an end to it.
  by_cases htick : ∃ now order, request = .tick now order
  · obtain ⟨now, order, rfl⟩ := htick
    have hserve : (s.serve (.tick now order)).graph = s.graph.apply (.tick now order) := rfl
    have hnot : ¬ s.graph.Loads (.tick now order) := id
    rw [hserve, Graph.stranded_apply_iff hwf hm hnot]
    simp [Loads, or_comm]
  · have hnotick : ¬ ∃ now order, request = .tick now order ∧ s.graph.Strands now :=
      fun ⟨now, order, heq, _⟩ ↦ htick ⟨now, order, heq⟩
    rw [or_iff_right hnotick]
    by_cases hload : ∃ text, request = .load text
    · obtain ⟨text, rfl⟩ := hload
      dsimp only [Loads, serve]
      unfold load
      cases hres : s.graph.loadText text with
      | error fault => simp [Except.map, Except.toOption]
      | ok graph =>
        obtain ⟨_, -, hload⟩ := Graph.exists_load_of_loadText hres
        have hnone := Graph.not_stranded_of_load hload
        simp [Except.map, Except.toOption, hnone]
    · rw [graph_serve, Graph.stranded_applyAll_iff hwf hm fun call hcall ↦
        isPlain_of_mem_calls (fun now order h ↦ htick ⟨now, order, h⟩)
          (fun text h ↦ hload ⟨text, h⟩) hcall]
      refine (and_iff_left fun hloads ↦ ?_).symm
      cases request with
      | load text => exact hload ⟨text, rfl⟩
      | _ => exact hloads

/-- A graph that requests lead to. -/
theorem graph_run {config : EditorConfig} (hconfig : config.validate = .ok ())
    (requests : List Request) :
    (run config requests).graph.WellFormed ∧ (run config requests).graph.Simple ∧
      (run config requests).graph.Measured config := by
  obtain ⟨calls, hcalls⟩ := exists_calls_run config requests
  rw [hcalls]
  exact ⟨Graph.wellFormed_run config 1 calls, Graph.simple_run config 1 calls,
    Graph.measured_run hconfig 1 calls⟩

/-- A connection is stranded after a run exactly if a tick stranded one and nothing has been loaded
since. -/
theorem stranded_run_iff {config : EditorConfig} (hconfig : config.validate = .ok ())
    (requests : List Request) :
    (∃ c, (run config requests).graph.Stranded c) ↔
      ∃ first now order last, requests = first ++ .tick now order :: last ∧
        (run config first).graph.Strands now ∧
          ∀ middle request, middle ++ [request] <+: last →
            ¬ (run config (first ++ .tick now order :: middle)).Loads request := by
  have hnil : ¬ ∃ c, (run config []).graph.Stranded c := by
    rintro ⟨c, hc, -⟩
    cases hc
  have hstep (requests : List Request) (request : Request) :
      (∃ c, (run config (requests ++ [request])).graph.Stranded c) ↔
        (∃ now order, request = .tick now order ∧ (run config requests).graph.Strands now) ∨
          (∃ c, (run config requests).graph.Stranded c) ∧
            ¬ (run config requests).Loads request := by
    obtain ⟨hwf, -, hm⟩ := graph_run hconfig requests
    rw [run_concat]
    exact stranded_serve_iff hwf hm request
  refine (holds_iff_begun (fun requests ↦ ∃ c, (run config requests).graph.Stranded c)
    (fun requests request ↦
      ∃ now order, request = .tick now order ∧ (run config requests).graph.Strands now)
    (fun requests request ↦ (run config requests).Loads request) hnil hstep requests).trans ?_
  constructor
  · rintro ⟨first, -, last, rfl, ⟨now, order, rfl, hstrands⟩, hnone⟩
    exact ⟨first, now, order, last, rfl, hstrands, hnone⟩
  · rintro ⟨first, now, order, last, rfl, hstrands, hnone⟩
    exact ⟨first, _, last, rfl, ⟨now, order, rfl, hstrands⟩, hnone⟩

/-- Ticks at finite times strand nothing. -/
theorem not_stranded_of_finite_ticks {config : EditorConfig} (hconfig : config.validate = .ok ())
    {requests : List Request}
    (hticks : ∀ now order, .tick now order ∈ requests → Scalar.isFinite now = true)
    (c : Connection) : ¬ (run config requests).graph.Stranded c := fun hstranded ↦ by
  obtain ⟨first, now, order, last, rfl, ⟨d, -, -, t, -, hnot⟩, -⟩ :=
    (stranded_run_iff hconfig requests).mp ⟨c, hstranded⟩
  have hfinite := hticks now order (List.mem_append_right _ List.mem_cons_self)
  exact hnot (Tween.measurable_of_isFinite hfinite)

/-- As long as no connection is stranded, more ticks are asked for until all that fades or waits has
gone. A connection is stranded after a run exactly if one of its ticks showed a time at which it
could not be told how long some fade had been running, and nothing has been loaded since. -/
theorem fades_end_unless_stranded {config : EditorConfig} (hconfig : config.validate = .ok ())
    (requests : List Request) :
    ((∀ c, ¬ (run config requests).graph.Stranded c) →
      (∃ c ∈ (run config requests).graph.connections, c.isDeleting = true) ∨
        (∃ id, id ∈ (run config requests).graph.leaving) →
          (run config requests).graph.isAnimating = true) ∧
    ((∃ c, (run config requests).graph.Stranded c) ↔
      ∃ first now order last, requests = first ++ .tick now order :: last ∧
        (run config first).graph.Strands now ∧
          ∀ middle request, middle ++ [request] <+: last →
            ¬ (run config (first ++ .tick now order :: middle)).Loads request) := by
  exact ⟨Graph.isAnimating_of_fading (graph_run hconfig requests).2.1,
    stranded_run_iff hconfig requests⟩

/-- Two nodes are joined and parted again, and the first tick shows infinity. -/
theorem fades_end_unless_stranded_infinite :
    ∃ requests c, (EditorConfig.standard : EditorConfig).validate = .ok () ∧
      (run .standard requests).graph.isAnimating = true ∧
        (run .standard (requests ++ [.tick Scalar.infinity (.listed _)])).graph.Stranded c := by
  let payload : String := "\x7b\"type\":\"Input\",\"label\":\"\"\x7d"
  let requests : List Request :=
    [.drop payload ⟨0, 0⟩, .drop payload ⟨0, 400⟩, .connect ⟨"Input-1"⟩ ⟨"Input-2"⟩,
      .deleteConnection ⟨"conn-3"⟩]
  have hconfig : (EditorConfig.standard : EditorConfig).validate = .ok () := by decide +kernel
  let g : Graph := (run .standard requests).graph
  have hunstarted : g.connections.any (fun c ↦ c.isDeleting &&
      (g.animator.find? c.id).any fun t ↦ t.startedAt.isNone) = true := by
    decide +kernel
  obtain ⟨c, hc, hunstarted⟩ := List.any_eq_true.mp hunstarted
  obtain ⟨hdeleting, htween⟩ := Bool.and_eq_true_iff.mp hunstarted
  obtain ⟨t, ht, hstart⟩ := (Option.any_eq_true _ _).mp htween
  have hinfinite : ¬ t.Measurable Scalar.infinity := fun hmeasurable ↦ by
    have hfinite := hmeasurable.2 (Option.isNone_iff_eq_none.mp hstart)
    revert hfinite
    decide +kernel
  have hnone : ∀ c, ¬ (run .standard requests).graph.Stranded c :=
    not_stranded_of_finite_ticks hconfig fun now order hmem ↦ by simp [requests] at hmem
  have hanimating := (fades_end_unless_stranded hconfig requests).1 hnone
    (Or.inl ⟨c, hc, hdeleting⟩)
  obtain ⟨d, hd⟩ := (fades_end_unless_stranded hconfig
    (requests ++ [.tick Scalar.infinity (.listed _)])).2.mpr
      ⟨requests, Scalar.infinity, .listed _, [], rfl, ⟨c, hc, hdeleting, t, ht, hinfinite⟩, by simp⟩
  exact ⟨requests, d, hconfig, hanimating, hd⟩

/-- With settings that pass their check, a connection fades and nothing is under way. -/
theorem fade_without_ticks :
    ∃ requests, (EditorConfig.standard : EditorConfig).validate = .ok () ∧
      (run .standard requests).graph.connections.any Connection.isDeleting = true ∧
        (run .standard requests).graph.isAnimating = false := by
  let payload : String := "\x7b\"type\":\"Input\",\"label\":\"\"\x7d"
  exact ⟨[.drop payload ⟨0, 0⟩, .drop payload ⟨0, 400⟩, .connect ⟨"Input-1"⟩ ⟨"Input-2"⟩,
    .deleteConnection ⟨"conn-3"⟩, .tick Scalar.infinity (.listed _)],
    by decide +kernel, by decide +kernel, by decide +kernel⟩

end Session

end LayerCanvas
