import LayerCanvas.Proofs.Session.Pan
import Mathlib.Data.List.Infix

/-!
The lock. Every operation on the view looks at the lock for itself, and so does the gesture machine
before it begins a pan; together they leave no way to move a view that is locked. Locking in the
middle of a pan gives the pan up on both sides, so that what the pointer does afterwards moves
nothing either.
-/

set_option autoImplicit false
set_option relaxedAutoImplicit false

namespace LayerCanvas.Session

/-- A session that stands still: its view has a given transform, and neither the view nor the
gesture machine pans. -/
structure Frozen (t : Transform) (s : Session) : Prop where
  transform : s.view.transform = t
  pan : s.view.pan = none
  gesture : s.gesture ≠ .panning

/-- A request that leaves the view locked does not move it, whether or not it was locked before. -/
theorem transform_serve (s : Session) {request : Request}
    (hlocked : (s.serve request).view.locked = true) :
    (s.serve request).view.transform = s.view.transform := by
  rw [view_serve] at hlocked ⊢
  rcases s.operations_cases request with hkeeps | hstill
  · rw [s.view.locked_applyAll hkeeps] at hlocked
    exact Viewport.transform_applyAll_of_locked hlocked hkeeps
  · exact s.view.transform_applyAll hstill

/-- While the lock holds nobody pans. -/
theorem not_panning_of_locked {s : Session} (h : s.stance.Steady) (hlocked : s.view.locked = true) :
    s.view.pan = none ∧ s.gesture ≠ .panning := by
  have hpan : s.view.isPanning = false := h.locked hlocked
  exact ⟨Option.not_isSome_iff_eq_none.mp (Bool.eq_false_iff.mp hpan),
    fun hg ↦ Bool.false_ne_true (hpan.symm.trans (h.panning hg))⟩

/-- As long as every request leaves the view locked, the session stands still. The view need not
have been locked before the first of them; a pan that was under way then has ended. -/
theorem frozen_while_locked (config : EditorConfig) (before during : List Request)
    (hlocked : ∀ first, first <+: during → first ≠ [] →
      (run config (before ++ first)).view.locked = true) :
    ∀ first, first <+: during → (run config (before ++ first)).view.locked = true →
      Frozen (run config before).view.transform (run config (before ++ first)) := by
  intro first hfirst hnow
  obtain ⟨hpan, hgesture⟩ := not_panning_of_locked (steady_run config _) hnow
  refine ⟨?_, hpan, hgesture⟩
  clear hnow hpan hgesture
  induction first using List.reverseRecOn with
  | nil => rw [List.append_nil]
  | append_singleton first request ih =>
    have hafter := hlocked _ hfirst (by simp)
    rw [← List.append_assoc, run_concat] at hafter ⊢
    exact (transform_serve _ hafter).trans (ih ((List.prefix_append first [request]).trans hfirst))

/-- The canvas is panned with the middle button and locked before the release. The pointer goes on,
the wheel turns, and what else would move the view is tried. -/
theorem frozen_while_locked_panned :
    ∃ before during, (run .standard before).gesture = .panning ∧
      Frozen ⟨⟨40, 30⟩, 1⟩ (run .standard (before ++ during)) := by
  let before : List Request :=
    [.input (.pointerDown ⟨0, 0⟩ .middle {}), .input (.pointerMove ⟨40, 30⟩ {})]
  let during : List Request :=
    [.toggleLock, .input (.pointerMove ⟨90, 90⟩ {}), .input (.wheel ⟨5, 5⟩ 1), .zoom .inward,
      .resetView, .key "-" {}, .input (.pointerDown ⟨0, 0⟩ .primary {}),
      .input (.pointerMove ⟨7, 7⟩ {})]
  have hlocked : ∀ first ∈ during.inits, first ≠ [] →
      (run .standard (before ++ first)).view.locked = true := by decide +kernel
  have hfrozen := frozen_while_locked .standard before during
    (fun first hfirst ↦ hlocked first ((List.mem_inits first during).mpr hfirst))
    during (List.prefix_refl during) (by decide +kernel)
  have htransform : (run .standard before).view.transform = ⟨⟨40, 30⟩, 1⟩ := by decide +kernel
  rw [htransform] at hfrozen
  exact ⟨before, during, by decide +kernel, hfrozen⟩

end LayerCanvas.Session
