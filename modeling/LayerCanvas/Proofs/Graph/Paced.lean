import LayerCanvas.Proofs.Graph.Fate
import LayerCanvas.Proofs.Progress

/-!
What a connection shows along a run whose ticks come in order. Between two calls it shows what its
tween came to in the last tick, or nothing yet, if it is to appear and no tick has come. So from one
call to the next its progress goes the way its tween goes, and stays in the unit interval.
-/

set_option autoImplicit false
set_option relaxedAutoImplicit false

namespace LayerCanvas

variable {C R : Type}

/-! ### Ticks in order -/

/-- The time of a tick. -/
def Call.time? : Call C R → Option R
  | .tick now _ => some now
  | _ => none

/-- The times of the ticks among several calls. -/
def tickTimes (calls : List (Call C R)) : List R := calls.filterMap Call.time?

theorem Call.time?_eq_some_iff {call : Call C R} {now : R} :
    call.time? = some now ↔ ∃ order, call = .tick now order := by
  cases call with
  | tick time order => simp [time?]
  | _ => simp [time?]

theorem tickTimes_append (first second : List (Call C R)) :
    tickTimes (first ++ second) = tickTimes first ++ tickTimes second := List.filterMap_append

/-- Calls whose ticks come at finite times, none of them earlier than the one before. -/
structure Orderly [Scalar R] (calls : List (Call C R)) : Prop where
  timely : ∀ call ∈ calls, call.IsTimely
  sorted : (tickTimes calls).IsChain (· ≤ ·)

namespace Orderly

variable [Scalar R] {first second calls : List (Call C R)} {call : Call C R}

theorem left (h : Orderly (first ++ second)) : Orderly first := by
  have hsorted := h.sorted
  rw [tickTimes_append, List.isChain_append] at hsorted
  exact ⟨fun call hcall ↦ h.timely call (List.mem_append_left second hcall), hsorted.1⟩

theorem last (h : Orderly (calls ++ [call])) : call.IsTimely :=
  h.timely call (List.mem_append_right calls List.mem_cons_self)

theorem le (h : Orderly (calls ++ [call])) {now time : R} (hnow : call.time? = some now)
    (htime : (tickTimes calls).getLast? = some time) : time ≤ now := by
  have hsorted := h.sorted
  rw [tickTimes_append, List.isChain_append] at hsorted
  refine hsorted.2.2 time htime now ?_
  simp [tickTimes, hnow]

end Orderly

open Scalar (InUnit)

namespace Graph

/-! ### What is shown -/

variable [Scalar C] [Scalar R] [Precision C R]

/-- What a connection shows of its tween: what the tween came to in the last tick, or nothing, if it
is to appear and no tick has come yet. -/
structure Tracks (c : Connection C) (t : Tween R) (last : Option R) : Prop where
  fresh : t.startedAt = none → t.kind = .creation → c.progress = 0
  begun : t.startedAt ≠ none →
    ∃ now, last = some now ∧ t.StartedBy now ∧ c.progress = Precision.narrow (t.progress now)

/-- A graph in which every connection shows what its tween came to in the last tick. -/
structure Paced (g : Graph C R) (config : EditorConfig C R) (last : Option R) : Prop where
  wellFormed : g.WellFormed
  phased : g.Phased config
  finite : ∀ now, last = some now → Scalar.isFinite now = true
  inUnit : ∀ c ∈ g.connections, InUnit c.progress
  tracks : ∀ c ∈ g.connections, ∀ t, g.animator.find? c.id = some t → Tracks c t last

variable {g g' : Graph C R} {config : EditorConfig C R} {last : Option R} {now : R}
  {c d : Connection C}

omit [Scalar C] in
theorem progress_after? {t : Tween R} (ht : g.animator.find? c.id = some t)
    (hd : c.after? g.animator now = some d) :
    d.progress = Precision.narrow (t.progress now) := by
  unfold Connection.after? at hd
  rw [ht] at hd
  simp only [Connection.absorb?, Tween.sample, if_true] at hd
  split at hd <;> cases hd <;> rfl

namespace Paced

variable [Gradual R]

theorem startedBy (h : g.Paced config last) (hc : c ∈ g.connections) {t : Tween R}
    (ht : g.animator.find? c.id = some t) (hlast : ∀ time, last = some time → time ≤ now) :
    t.StartedBy now := by
  intro start hstart
  obtain ⟨time, htime, hby, -⟩ := (h.tracks c hc t ht).begun (by rw [hstart]; exact nofun)
  exact hby.mono (hlast time htime) start hstart

variable [Coarsening C R]

theorem change (h : g.Paced config last) (hstep : Change g g') : g'.Paced config last := by
  refine ⟨h.wellFormed.change hstep, h.phased.change hstep, h.finite, fun d hd ↦ ?_,
    fun d hd t ht ↦ ?_⟩
  · cases hstep.fate h.wellFormed hd with
    | kept c hc hid hprogress hdeleting htween => exact hprogress ▸ h.inUnit c hc
    | faded c hc hid hprogress hlive htween => exact hprogress ▸ h.inUnit c hc
    | made hid hprogress htween => exact hprogress ▸ Coarsening.inUnit_zero C R
  · cases hstep.fate h.wellFormed hd with
    | kept c hc hid hprogress hdeleting htween =>
      have htracks := h.tracks c hc t (htween ▸ ht)
      exact ⟨hprogress ▸ htracks.fresh, hprogress ▸ htracks.begun⟩
    | faded c hc hid hprogress hlive htween =>
      rw [htween] at ht
      cases ht
      exact ⟨nofun, fun hstarted ↦ absurd rfl hstarted⟩
    | made hid hprogress htween =>
      rw [htween] at ht
      cases ht
      exact ⟨fun _ _ ↦ hprogress, fun hstarted ↦ absurd rfl hstarted⟩

theorem ticked [Clock R] [Easing C R] (h : g.Paced config last)
    (hnow : Scalar.isFinite now = true) (hlast : ∀ time, last = some time → time ≤ now) :
    (g.ticked now).Paced config (some now) := by
  refine ⟨h.wellFormed.ticked now, h.phased.ticked h.wellFormed hnow,
    fun time htime ↦ Option.some.inj htime ▸ hnow, fun d hd ↦ ?_, fun d hd t' ht' ↦ ?_⟩
  · obtain ⟨c, hc, hafter⟩ := mem_connections_ticked_iff.mp hd
    cases ht : g.animator.find? c.id with
    | none =>
      simp only [Connection.after?, ht, Option.some.injEq] at hafter
      exact hafter ▸ h.inUnit c hc
    | some t =>
      rw [progress_after? ht hafter]
      exact inUnit_narrow
        (Tween.inUnit_progress (h.phased.timed c.id t ht) hnow (h.startedBy hc ht hlast))
  · obtain ⟨c, hc, hafter⟩ := mem_connections_ticked_iff.mp hd
    have hid : d.id = c.id := congrArg Prod.fst (Connection.after?_frame hafter).1
    rw [find?_ticked h.wellFormed.tweens_nodup, Option.filter_eq_some_iff, hid] at ht'
    obtain ⟨t, ht, rfl⟩ := Option.map_eq_some_iff.mp ht'.1
    have hby := (h.startedBy hc ht hlast).latch hnow
    have hprogress := progress_after? ht hafter
    exact ⟨fun hfresh ↦ absurd hfresh (Option.some_ne_none _),
      fun _ ↦ ⟨now, rfl, hby, hprogress⟩⟩

theorem load (h : g.Paced config last) {s : Snapshot C R} (hok : g.load s = .ok g') :
    g'.Paced config last := by
  have hrest := atRest_load hok
  refine ⟨.load g hok, h.phased.load hok, h.finite, fun c hc ↦ ?_, fun c hc t ht ↦ ?_⟩
  · rw [(hrest.settled c hc).2.2]
    exact Coarsening.inUnit_one C R
  · rw [Animator.find?, hrest.tweens] at ht
    cases ht

variable [Clock R] [Easing C R]

theorem apply (h : g.Paced config last) {call : Call C R} (hcall : call.IsTimely)
    (hnext : ∀ now, call.time? = some now → ∀ time, last = some time → time ≤ now) :
    (g.apply call).Paced config (call.time?.or last) := by
  cases htime : call.time? with
  | some now =>
    obtain ⟨order, rfl⟩ := Call.time?_eq_some_iff.mp htime
    rw [Graph.apply, (tickIn_eq h.wellFormed.tickable now order).1]
    exact h.ticked hcall (hnext now htime)
  | none =>
    rcases g.apply_cases call with ⟨-, hsteps⟩ | ⟨now, order, rfl⟩ | ⟨-, s, hok⟩
    · exact hsteps.keep (P := fun g ↦ g.Paced config last) (fun _ _ h hstep ↦ h.change hstep) h
    · cases htime
    · exact h.load hok

omit [Gradual R] [Coarsening C R] [Clock R] [Easing C R] in
theorem empty (hconfig : config.validate = .ok ()) (serial : Nat) :
    (empty config serial).Paced config none :=
  ⟨.empty config serial, .empty hconfig serial, nofun, nofun, nofun⟩

end Paced

variable [Gradual R] [Coarsening C R] [Clock R] [Easing C R]

theorem paced_run (hconfig : config.validate = .ok ()) (serial : Nat) {calls : List (Call C R)}
    (hcalls : Orderly calls) :
    (run config serial calls).Paced config (tickTimes calls).getLast? := by
  induction calls using List.reverseRecOn with
  | nil => exact .empty hconfig serial
  | append_singleton calls call ih =>
    have hpaced := (ih hcalls.left).apply hcalls.last fun now hnow time ↦ hcalls.le hnow
    have htimes : (tickTimes (calls ++ [call])).getLast? =
        call.time?.or (tickTimes calls).getLast? := by
      rw [tickTimes_append, List.getLast?_append]
      cases htime : call.time? <;> simp [tickTimes, htime]
    rw [htimes, run_append]
    exact hpaced

/-! ### One connection in one call -/

omit [Gradual R] [Coarsening C R] [Clock R] [Easing C R] in
/-- A connection that was there before a call that loads nothing has been sampled by a tick, or
shows what it did. -/
theorem apply_origin (h : g.WellFormed) {call : Call C R} (hload : ¬ g.Loads call)
    (hc : c ∈ g.connections) (hd : d ∈ (g.apply call).connections) (hid : d.id = c.id) :
    d.progress = c.progress ∨
      ∃ now, call.time? = some now ∧ c.after? g.animator now = some d := by
  rcases g.apply_cases call with ⟨-, hsteps⟩ | ⟨now, order, rfl⟩ | ⟨hloads, -⟩
  · exact Or.inl ((Stands.changes h hsteps).standsAs h.connectionIds_nodup hc hd hid).progress_eq
  · rw [Graph.apply, (tickIn_eq h.tickable now order).1] at hd
    exact Or.inr ⟨now, rfl, after?_of_mem_ticked h.connectionIds_nodup hc hd hid⟩
  · exact absurd hloads hload

namespace Paced

omit [Gradual R] [Coarsening C R] [Clock R] [Easing C R] in
/-- The tween of a live connection is the one it appears with. -/
theorem kind_of_live (h : g.Paced config last) (hc : c ∈ g.connections)
    (hlive : c.isDeleting = false) {t : Tween R} (ht : g.animator.find? c.id = some t) :
    t.kind = .creation := by
  obtain ⟨p, hp⟩ := h.phased.inPhase c hc
  cases p with
  | creating =>
    obtain ⟨-, -, t', ht', hkind⟩ := hp
    rw [ht] at ht'
    exact Option.some.inj ht' ▸ hkind
  | settled =>
    obtain ⟨-, -, hnone, -⟩ := hp
    rw [ht] at hnone
    cases hnone
  | deleting =>
    rw [hp.2.1] at hlive
    cases hlive

section

variable (h : g.Paced config last) (hnow : Scalar.isFinite now = true)
  (hlast : ∀ time, last = some time → time ≤ now) (hc : c ∈ g.connections)
  (hafter : c.after? g.animator now = some d)

include h hnow hlast hc hafter

omit [Clock R] [Easing C R] in
/-- A live connection does not fade in a tick. -/
theorem le_after? (hlive : c.isDeleting = false) : c.progress ≤ d.progress := by
  cases ht : g.animator.find? c.id with
  | none =>
    simp only [Connection.after?, ht, Option.some.injEq] at hafter
    exact hafter ▸ Coarsening.le_refl R _ (h.inUnit c hc).zero_le
  | some t =>
    have htimed := h.phased.timed c.id t ht
    have hkind := h.kind_of_live hc hlive ht
    have hunit := Tween.inUnit_progress htimed hnow (h.startedBy hc ht hlast)
    rw [progress_after? ht hafter]
    by_cases hstarted : t.startedAt = none
    · rw [(h.tracks c hc t ht).fresh hstarted hkind]
      exact (inUnit_narrow hunit).zero_le
    · obtain ⟨time, htime, hby, hprogress⟩ := (h.tracks c hc t ht).begun hstarted
      obtain ⟨start, hstart⟩ := Option.ne_none_iff_exists'.mp hstarted
      have hfinite := h.finite time htime
      rw [hprogress]
      exact Coarsening.narrow_le_narrow _ _ (Tween.inUnit_progress htimed hfinite hby).zero_le
        (Tween.progress_mono htimed hstart hfinite hnow hby (hlast time htime) hkind) hunit.le_one

omit [Clock R] [Easing C R] in
/-- A connection that has begun to fade does not appear in a tick. -/
theorem after?_le {t : Tween R} (ht : g.animator.find? c.id = some t) (hkind : t.kind = .deletion)
    (hstarted : t.startedAt ≠ none) : d.progress ≤ c.progress := by
  have htimed := h.phased.timed c.id t ht
  have hunit := Tween.inUnit_progress htimed hnow (h.startedBy hc ht hlast)
  obtain ⟨time, htime, hby, hprogress⟩ := (h.tracks c hc t ht).begun hstarted
  obtain ⟨start, hstart⟩ := Option.ne_none_iff_exists'.mp hstarted
  have hfinite := h.finite time htime
  rw [progress_after? ht hafter, hprogress]
  exact Coarsening.narrow_le_narrow _ _ hunit.zero_le
    (Tween.progress_anti htimed hstart hfinite hnow hby (hlast time htime) hkind)
    (Tween.inUnit_progress htimed hfinite hby).le_one

end

variable (h : g.Paced config last) {call : Call C R} (hcall : call.IsTimely)
  (hnext : ∀ now, call.time? = some now → ∀ time, last = some time → time ≤ now)
  (hload : ¬ g.Loads call) (hc : c ∈ g.connections) (hd : d ∈ (g.apply call).connections)
  (hid : d.id = c.id)

include h hcall hnext hload hc hd hid

omit [Clock R] [Easing C R] in
theorem le_apply (hlive : c.isDeleting = false) : c.progress ≤ d.progress := by
  rcases apply_origin h.wellFormed hload hc hd hid with hsame | ⟨now, hnow, hafter⟩
  · rw [hsame]
    exact Coarsening.le_refl R _ (h.inUnit c hc).zero_le
  · obtain ⟨order, rfl⟩ := Call.time?_eq_some_iff.mp hnow
    exact h.le_after? hcall (hnext now hnow) hc hafter hlive

omit [Clock R] [Easing C R] in
theorem apply_le {t : Tween R} (ht : g.animator.find? c.id = some t) (hkind : t.kind = .deletion)
    (hstarted : t.startedAt ≠ none) : d.progress ≤ c.progress := by
  rcases apply_origin h.wellFormed hload hc hd hid with hsame | ⟨now, hnow, hafter⟩
  · rw [hsame]
    exact Coarsening.le_refl R _ (h.inUnit c hc).zero_le
  · obtain ⟨order, rfl⟩ := Call.time?_eq_some_iff.mp hnow
    exact h.after?_le hcall (hnext now hnow) hc hafter ht hkind hstarted

end Paced

end Graph

end LayerCanvas
