import LayerCanvas.Proofs.Binary.Widening
import LayerCanvas.Proofs.Config
import LayerCanvas.Proofs.Graph.Nodes
import LayerCanvas.Proofs.Session.Calls
import Mathlib.Data.List.Infix

/-!
The geometry of the nodes of a session. Nodes are dragged to finite positions only, and what a load
brings is checked. A drop looks at the point on the canvas, but the node goes half its size to the
left of it and above; where nodes are as large as numbers get, that can lead past the largest number
even though the point is finite. This is the only way for a node to get a position that is not
finite.
-/

set_option autoImplicit false
set_option relaxedAutoImplicit false

namespace LayerCanvas.Session

variable {s : Session}

/-- Whether a request is a drop that is accepted, although the node would go to a position that is
not finite. -/
def overflows (s : Session) : Request → Bool
  | .drop payload p =>
    (Layer.parse? payload).isSome && (s.view.transform.toCanvas p).isFinite &&
      !(s.dropOrigin p).isFinite
  | _ => false

/-! ### One request -/

theorem positions_serve (h : ∀ n ∈ s.graph.nodes, n.origin.isFinite = true) {request : Request}
    (hnot : s.overflows request = false) :
    ∀ n ∈ (s.serve request).graph.nodes, n.origin.isFinite = true := by
  have hplaced : ∀ call ∈ s.calls request, ∀ layer origin, call = .addNode layer origin →
      origin.isFinite = true := by
    rintro _ hcall layer origin rfl
    obtain ⟨payload, p, rfl, hlayer, hfinite, rfl⟩ := mem_calls_addNode hcall
    simpa [overflows, hlayer, hfinite] using hnot
  rw [graph_serve]
  exact Graph.applyAll_induction (P := fun g ↦ ∀ n ∈ g.nodes, n.origin.isFinite = true)
    (fun g call hcall hg ↦ g.positions_apply hg hcall) _ hplaced s.graph h

/-- A drop that overflows puts its node where no node can be. -/
theorem misplaced_of_overflows {request : Request} (h : s.overflows request = true) :
    ∃ n ∈ (s.serve request).graph.nodes, n.origin.isFinite = false := by
  unfold overflows at h
  split at h
  next payload p =>
    simp only [Bool.and_eq_true, Option.isSome_iff_exists, Bool.not_eq_true'] at h
    obtain ⟨⟨⟨layer, hlayer⟩, hfinite⟩, hmisplaced⟩ := h
    have hcalls : s.calls (.drop payload p) = [.addNode layer (s.dropOrigin p)] := by
      simp [calls, dropCalls, hlayer, hfinite]
    rw [graph_serve, hcalls]
    exact ⟨_, List.mem_append_right _ (List.mem_singleton_self _), hmisplaced⟩
  next => cases h

/-! ### Runs -/

theorem sizes_run {config : EditorConfig} (hconfig : config.validate = .ok ())
    (requests : List Request) : ∀ n ∈ (run config requests).graph.nodes,
      Scalar.isPositive n.width = true ∧ Scalar.isPositive n.height = true := by
  obtain ⟨hwidth, hheight⟩ := EditorConfig.sizes_of_validate hconfig
  obtain ⟨calls, hcalls⟩ := exists_calls_run config requests
  have hrun : (Graph.run config 1 calls).config = config ∧
      ∀ n ∈ (Graph.run config 1 calls).nodes,
        Scalar.isPositive n.width = true ∧ Scalar.isPositive n.height = true := by
    refine Graph.run_induction (P := fun g ↦ g.config = config ∧ ∀ n ∈ g.nodes,
      Scalar.isPositive n.width = true ∧ Scalar.isPositive n.height = true)
      ⟨rfl, by simp [Graph.empty]⟩ (fun g call ⟨hsame, hsizes⟩ ↦ ?_) calls
    refine ⟨(g.config_apply call).trans hsame, g.sizes_apply ?_ ?_ hsizes call⟩
    · rw [hsame]
      exact Binary.isPositive_of_widen hwidth
    · rw [hsame]
      exact Binary.isPositive_of_widen hheight
  rw [hcalls]
  exact hrun.2

/-- With settings that pass their check, nodes always have a finite and positive size. They have
valid geometry all through a run if and only if none of its requests is a drop that overflows. -/
theorem geometry_unless_overflowing {config : EditorConfig} (hconfig : config.validate = .ok ())
    (requests : List Request) :
    (∀ n ∈ (run config requests).graph.nodes,
      Scalar.isPositive n.width = true ∧ Scalar.isPositive n.height = true) ∧
    ((∀ first, first <+: requests →
        ∀ n ∈ (run config first).graph.nodes, n.hasValidGeometry = true) ↔
      ∀ first request, first ++ [request] <+: requests →
        (run config first).overflows request = false) := by
  refine ⟨sizes_run hconfig requests, fun hvalid first request hfirst ↦ ?_,
    fun hnone first hfirst ↦ ?_⟩
  · by_contra hoverflows
    rw [Bool.not_eq_false] at hoverflows
    obtain ⟨n, hn, hmisplaced⟩ := misplaced_of_overflows hoverflows
    rw [← run_concat] at hn
    have hfinite := (Node.hasValidGeometry_iff.mp (hvalid _ hfirst n hn)).1
    exact Bool.false_ne_true (hmisplaced.symm.trans hfinite)
  · have hpositions : ∀ n ∈ (run config first).graph.nodes, n.origin.isFinite = true := by
      induction first using List.reverseRecOn with
      | nil => exact fun n hn ↦ absurd hn List.not_mem_nil
      | append_singleton first request ih =>
        rw [run_concat]
        exact positions_serve (ih ((List.prefix_append first [request]).trans hfirst))
          (hnone first request hfirst)
    exact fun n hn ↦
      Node.hasValidGeometry_iff.mpr ⟨hpositions n hn, sizes_run hconfig first n hn⟩

/-- With the usual settings a node is dropped at the corner of the view and dragged away. -/
theorem geometry_unless_overflowing_dragged :
    ∃ requests, (EditorConfig.standard : EditorConfig).validate = .ok () ∧
      (run .standard requests).graph.nodes.map Node.origin = [⟨-40, -13⟩] ∧
      ∀ n ∈ (run .standard requests).graph.nodes, n.hasValidGeometry = true := by
  let payload : String := "\x7b\"type\":\"Input\",\"label\":\"\"\x7d"
  let requests : List Request :=
    [.drop payload ⟨0, 0⟩, .input (.pointerDown ⟨0, 0⟩ .primary {}),
      .input (.pointerMove ⟨30, 30⟩ {})]
  have hconfig : (EditorConfig.standard : EditorConfig).validate = .ok () := by decide +kernel
  have hnone : ∀ first request, first ++ [request] <+: requests →
      (run .standard first).overflows request = false := by
    have hall : ∀ first ∈ requests.inits, ∀ h : first ≠ [],
        (run .standard first.dropLast).overflows (first.getLast h) = false := by decide +kernel
    intro first request hfirst
    simpa using hall _ ((List.mem_inits _ requests).mpr hfirst) (by simp)
  exact ⟨requests, hconfig, by decide +kernel,
    (geometry_unless_overflowing hconfig requests).2.mpr hnone requests (List.prefix_refl requests)⟩

/-- Nodes are so large that half of one leads from the drop past the largest number. -/
theorem misplaced_drop :
    ∃ (config : EditorConfig) (requests : List Request), config.validate = .ok () ∧
      ∃ n ∈ (run config requests).graph.nodes, n.hasValidGeometry = false := by
  let payload : String := "\x7b\"type\":\"Input\",\"label\":\"\"\x7d"
  let config : EditorConfig := { EditorConfig.standard with nodeWidth := 3e38 }
  exact ⟨config, [.drop payload ⟨-3e38, 0⟩], by decide +kernel, by decide +kernel⟩

end LayerCanvas.Session
