import LayerCanvas.Proofs.Binary.Gradual
import LayerCanvas.Proofs.Graph.Paced
import LayerCanvas.Proofs.Graph.Report

/-!
How connections appear and fade over a run. As long as the ticks come in order, the progress of a
connection stays between zero and one and does not go back: it does not decrease while the
connection is live, and it does not increase while it is fading, from the first tick after the
request on. A creation ends at one. A deletion ends with the first tick that comes as long after
the first one as the settings say.
-/

set_option autoImplicit false
set_option relaxedAutoImplicit false

namespace LayerCanvas.Graph

variable {C R : Type} [Scalar C] [Scalar R] [Precision C R] [Gradual R] [Coarsening C R] [Clock R]
  [Easing C R] {g : Graph C R} {config : EditorConfig C R} {last : Option R} {now : R}
  {c d : Connection C}

/-! ### A deletion from its request on -/

/-- Whether a connection that a request finds live is fading after it. -/
structure Fades (g : Graph C R) (request : Call C R) (id : ConnectionId) : Prop where
  live : ∃ c ∈ g.connections, c.id = id ∧ c.isDeleting = false
  deleting : ∃ d ∈ (g.apply request).connections, d.id = id ∧ d.isDeleting = true

/-- Whether a connection is fading for as long as a deletion lasts, and since when, if a tick has
come. -/
structure Fading (g : Graph C R) (config : EditorConfig C R) (id : ConnectionId)
    (start? : Option R) : Prop where
  there : ∃ c ∈ g.connections, c.id = id ∧ c.isDeleting = true
  tween : g.animator.find? id = some ⟨.deletion, config.deletionMs, start?⟩

variable {id : ConnectionId} {start? : Option R}

omit [Gradual R] [Coarsening C R] [Clock R] [Easing C R] in
theorem Fades.fading {request : Call C R} (hfades : g.Fades request id) (h : g.Paced config last) :
    (g.apply request).Fading config id none := by
  obtain ⟨⟨c, hc, rfl, hlive⟩, d, hd, hid, hdeleting⟩ := hfades
  have hnodup := h.wellFormed.connectionIds_nodup
  refine ⟨⟨d, hd, hid, hdeleting⟩, ?_⟩
  rcases g.apply_cases request with ⟨-, hsteps⟩ | ⟨now, order, rfl⟩ | ⟨-, s, hok⟩
  · have hstays := (Stands.changes h.wellFormed hsteps).standsAs hnodup hc hd hid
    rw [← hid, hstays.asked hlive hdeleting, h.phased.tuned.deletion_eq]
  · rw [Graph.apply, (tickIn_eq h.wellFormed.tickable now order).1] at hd
    have hafter := after?_of_mem_ticked hnodup hc hd hid
    rw [(Connection.after?_frame hafter).2.1, hlive] at hdeleting
    cases hdeleting
  · rw [((atRest_load hok).settled d hd).2.1] at hdeleting
    cases hdeleting

omit [Coarsening C R] [Easing C R] in
/-- A tick takes a connection that is fading when it has been for as long as a deletion lasts. -/
theorem Fading.after?_eq_none_iff (hfading : g.Fading config c.id start?)
    (h : g.Paced config last) (hc : c ∈ g.connections) (hnow : Scalar.isFinite now = true)
    (hlast : ∀ time, last = some time → time ≤ now) :
    c.after? g.animator now = none ↔ config.deletionMs ≤ now - start?.getD now := by
  have htimed := h.phased.timed c.id _ hfading.tween
  have hby := h.startedBy hc hfading.tween hlast
  rw [Connection.after?, hfading.tween]
  dsimp only
  rw [Connection.absorb?_eq_none_iff]
  have hfinished := Tween.one_le_fraction_iff (htimed.latch hnow) hnow
  rw [Tween.isRunning_latch, Tween.isRunning_eq_false_iff htimed hnow hby] at hfinished
  simpa [TweenSample.purges, Tween.sample, Tween.elapsed] using hfinished

omit [Coarsening C R] [Easing C R] in
theorem Fading.tickIn (hfading : g.Fading config id start?) (h : g.Paced config last)
    (hnow : Scalar.isFinite now = true) (hlast : ∀ time, last = some time → time ≤ now)
    (order : SampleOrder C) :
    (id ∈ (g.tickIn now order).2.purged ↔ config.deletionMs ≤ now - start?.getD now) ∧
      (id ∈ (g.tickIn now order).1.connectionIds ↔
        ¬ config.deletionMs ≤ now - start?.getD now) := by
  obtain ⟨c, hc, rfl, -⟩ := hfading.there
  have hpurged : c.id ∈ (g.tickIn now order).2.purged ↔ c.after? g.animator now = none := by
    rw [mem_purged_iff h.wellFormed.tickable]
    constructor
    · rintro ⟨c', hc', hid, hgone⟩
      rwa [← List.inj_on_of_nodup_map h.wellFormed.connectionIds_nodup hc' hc hid]
    · exact fun hgone ↦ ⟨c, hc, rfl, hgone⟩
  have hleft : c.id ∈ (g.tickIn now order).2.purged ↔ c.id ∉ (g.ticked now).connectionIds :=
    (mem_purged_iff_gone h.wellFormed).trans (and_iff_right (mem_connectionIds hc))
  rw [(tickIn_eq h.wellFormed.tickable now order).1, ← hfading.after?_eq_none_iff h hc hnow hlast,
    ← hpurged, hleft, not_not]
  exact ⟨Iff.rfl, Iff.rfl⟩

omit [Coarsening C R] [Easing C R] in
/-- A connection that is fading goes on until its time is over. -/
theorem Fading.apply (hfading : g.Fading config id start?) (h : g.Paced config last)
    {call : Call C R} (hcall : call.IsTimely)
    (hnext : ∀ now, call.time? = some now → ∀ time, last = some time → time ≤ now)
    (hload : ¬ g.Loads call)
    (hearly : ∀ now, call.time? = some now → ¬ config.deletionMs ≤ now - start?.getD now) :
    (g.apply call).Fading config id (start?.or call.time?) := by
  obtain ⟨c, hc, rfl, hdeleting⟩ := hfading.there
  cases htime : call.time? with
  | some now =>
    obtain ⟨order, rfl⟩ := Call.time?_eq_some_iff.mp htime
    -- The tick comes too early to purge the connection, so its tween goes on, latched.
    have hstays :=
      mt (hfading.after?_eq_none_iff h hc hcall (hnext now htime)).mp (hearly now htime)
    obtain ⟨d, hd⟩ := Option.ne_none_iff_exists'.mp hstays
    obtain ⟨hlink, hflag, -⟩ := Connection.after?_frame hd
    have hkept : ((Tween.latch ⟨.deletion, config.deletionMs, start?⟩ now).sample (C := C) c.id
        now).purges = false := by
      rw [Connection.after?, hfading.tween] at hstays
      exact Bool.eq_false_iff.mpr fun hpurges ↦
        hstays (Connection.absorb?_eq_none_iff.mpr ⟨rfl, hpurges⟩)
    have hrunning : Tween.isRunning ⟨.deletion, config.deletionMs, start?⟩ now = true := by
      rw [← Bool.not_eq_false, Tween.isRunning_eq_false_iff (h.phased.timed c.id _ hfading.tween)
        hcall (h.startedBy hc hfading.tween (hnext now htime))]
      exact hearly now htime
    rw [Graph.apply, (tickIn_eq h.wellFormed.tickable now order).1]
    refine ⟨⟨d, mem_connections_ticked_iff.mpr ⟨c, hc, hd⟩, congrArg Prod.fst hlink,
      hflag.trans hdeleting⟩, ?_⟩
    rw [find?_ticked h.wellFormed.tweens_nodup, hfading.tween, Option.map_some, Option.filter_some,
      hkept, Tween.isRunning_latch, hrunning]
    cases start? <;> rfl
  | none =>
    rw [Option.or_none]
    rcases g.apply_cases call with ⟨-, hsteps⟩ | ⟨now, order, rfl⟩ | ⟨hloads, -⟩
    · have hstands := Stands.changes h.wellFormed hsteps
      obtain ⟨d, hd, hid⟩ := List.mem_map.mp (hstands.ids (mem_connectionIds hc))
      obtain ⟨hflag, htween⟩ :=
        (hstands.standsAs h.wellFormed.connectionIds_nodup hc hd hid).fading hdeleting
      exact ⟨⟨d, hd, hid, hflag⟩, by rw [← hid, htween, hfading.tween]⟩
    · cases htime
    · exact absurd hloads hload

/-! ### All calls -/

/-- Whether a deletion is over at a tick after several calls, if it began at the first tick of them,
or begins now. -/
def Due (config : EditorConfig C R) (after : List (Call C R)) (now : R) : Prop :=
  config.deletionMs ≤ now - (tickTimes after).head?.getD now

omit [Scalar C] [Precision C R] [Gradual R] [Coarsening C R] [Clock R] [Easing C R] in
theorem due_concat {after : List (Call C R)} {call : Call C R}
    (hnow : now ∈ tickTimes (after ++ [call])) :
    Due config (after ++ [call]) now ↔ Due config after now := by
  rw [tickTimes_append] at hnow
  unfold Due
  rw [tickTimes_append]
  cases htimes : tickTimes after with
  | nil =>
    rw [htimes, List.nil_append] at hnow
    have hcall : tickTimes [call] = [now] := by
      cases htime : call.time? <;> simp_all [tickTimes]
    rw [hcall]
    rfl
  | cons first rest => rfl

theorem fading_run (hconfig : config.validate = .ok ()) (serial : Nat)
    {before after : List (Call C R)} {request : Call C R}
    (hcalls : Orderly (before ++ request :: after))
    (hfades : (run config serial before).Fades request id)
    (hafter : Along (fun g call ↦ ¬ g.Loads call) ((run config serial before).apply request) after)
    (hearly : ∀ now ∈ tickTimes after, ¬ Due config after now) :
    (run config serial (before ++ request :: after)).Fading config id (tickTimes after).head? := by
  induction after using List.reverseRecOn with
  | nil =>
    rw [run_append]
    exact hfades.fading (paced_run hconfig serial hcalls.left)
  | append_singleton after call ih =>
    rw [← List.cons_append, ← List.append_assoc] at hcalls ⊢
    obtain ⟨hbefore, hload⟩ := along_concat.mp hafter
    have hpaced := paced_run hconfig serial hcalls.left
    have hfading := ih hcalls.left hbefore fun now hnow hdue ↦ by
      have hmem : now ∈ tickTimes (after ++ [call]) := by
        rw [tickTimes_append]
        exact List.mem_append_left _ hnow
      exact hearly now hmem ((due_concat hmem).mpr hdue)
    have hgraph : run config serial (before ++ request :: after) =
        ((run config serial before).apply request).applyAll after := run_append ..
    have hnext := hfading.apply hpaced hcalls.last (fun now hnow time ↦ hcalls.le hnow)
      (hgraph ▸ hload) fun now hnow hdue ↦ by
        have hmem : now ∈ tickTimes (after ++ [call]) := by
          simp [tickTimes, hnow]
        exact hearly now hmem ((due_concat hmem).mpr hdue)
    have hhead : (tickTimes (after ++ [call])).head? = (tickTimes after).head?.or call.time? := by
      rw [tickTimes_append, List.head?_append]
      cases htime : call.time? <;> simp [tickTimes, htime]
    rw [run_append, hhead]
    exact hnext

/-! ### Machine numbers -/

/-- With settings that pass their check and ticks at finite times in order, every connection shows
something between nothing and the whole, and the whole once its creation is over. No call but a load
takes away from what a live connection shows. A connection that was told to fade is there as long as
no tick finds its deletion over, counted from the first tick after the request. The first tick that
does purges it, and from the first tick after the request on no call adds to what it shows. -/
theorem progress_over_time {config : EditorConfig} (hconfig : config.validate = .ok ())
    (serial : Nat) {calls : List (Call Float32 Float)} (hcalls : Orderly calls) :
    let g := run config serial calls
    (∀ c ∈ g.connections, (0 ≤ c.progress ∧ c.progress ≤ 1) ∧
        (c.isAnimating = false → c.isDeleting = false → c.progress = 1)) ∧
      (∀ call, Orderly (calls ++ [call]) → ¬ g.Loads call →
        ∀ c ∈ g.connections, c.isDeleting = false →
          ∀ d ∈ (g.apply call).connections, d.id = c.id → c.progress ≤ d.progress) ∧
        ∀ before request after id, calls = before ++ request :: after →
          (run config serial before).Fades request id →
          Along (fun g call ↦ ¬ g.Loads call) ((run config serial before).apply request) after →
          (∀ now ∈ tickTimes after, ¬ Due config after now) →
            ∃ c ∈ g.connections, c.id = id ∧ c.isDeleting = true ∧
              (∀ call, Orderly (calls ++ [call]) → ¬ g.Loads call → tickTimes after ≠ [] →
                ∀ d ∈ (g.apply call).connections, d.id = id → d.progress ≤ c.progress) ∧
              ∀ now order, Orderly (calls ++ [.tick now order]) →
                (id ∈ (g.tickIn now order).2.purged ↔ Due config after now) ∧
                  (id ∈ (g.tickIn now order).1.connectionIds ↔ ¬ Due config after now) := by
  intro g
  have hpaced : g.Paced config (tickTimes calls).getLast? := paced_run hconfig serial hcalls
  -- The invariant of the run bounds what is shown. It does not know when a deletion was asked for:
  -- that is followed from the request on.
  refine ⟨fun c hc ↦ ⟨⟨(hpaced.inUnit c hc).zero_le, (hpaced.inUnit c hc).le_one⟩,
    fun hanimating hdeleting ↦ ?_⟩, fun call hnext hload c hc hlive d hd hid ↦ ?_,
    fun before request after id heq hfades hafter hearly ↦ ?_⟩
  · obtain ⟨p, hp⟩ := hpaced.phased.inPhase c hc
    cases p with
    | creating => exact absurd hp.1 (by simp [hanimating])
    | settled => exact hp.2.2.2
    | deleting => exact absurd hp.2.1 (by simp [hdeleting])
  · exact hpaced.le_apply hnext.last (fun now hnow time ↦ hnext.le hnow) hload hc hd hid hlive
  · subst heq
    have hfading := fading_run hconfig serial hcalls hfades hafter hearly
    obtain ⟨c, hc, rfl, hdeleting⟩ := hfading.there
    refine ⟨c, hc, rfl, hdeleting, fun call hnext hload hticks d hd hid ↦ ?_,
      fun now order hnext ↦ ?_⟩
    · have hstarted : (tickTimes after).head? ≠ none := by simpa using hticks
      exact hpaced.apply_le hnext.last (fun now hnow time ↦ hnext.le hnow) hload hc hd hid
        hfading.tween rfl hstarted
    · exact hfading.tickIn hpaced hnext.last (fun time ↦ hnext.le rfl) order

/-- A connection is deleted in the middle of its creation, and the first tick after it comes at 150
milliseconds. A tick at 449 milliseconds leaves it, and one at 450 takes it. -/
theorem progress_over_time_deleted :
    ∃ (before after : List (Call Float32 Float)) (request : Call Float32 Float),
      (EditorConfig.standard : EditorConfig).validate = .ok () ∧
        Orderly (before ++ request :: after) ∧
          (run .standard 1 before).Fades request ⟨"conn-1"⟩ ∧
            let g : Graph := run .standard 1 (before ++ request :: after)
            ∃ c ∈ g.connections, c.id = ⟨"conn-1"⟩ ∧ (0 ≤ c.progress ∧ c.progress ≤ 1) ∧
              (∀ d ∈ (g.tickIn 449 (.listed _)).1.connections,
                d.id = ⟨"conn-1"⟩ → d.progress ≤ c.progress) ∧
              ⟨"conn-1"⟩ ∉ (g.tickIn 449 (.listed _)).2.purged ∧
                ⟨"conn-1"⟩ ∈ (g.tickIn 450 (.listed _)).2.purged := by
  let layer : Layer := ⟨"Input", "", "", "", .empty, "", ""⟩
  let node (text : String) : Node := ⟨⟨text⟩, layer, ⟨0, 0⟩, 140, 86⟩
  let before : List (Call Float32 Float) :=
    [.insertNode (node "a"), .insertNode (node "b"), .addConnection ⟨"a"⟩ ⟨"b"⟩ ⟨0, 0⟩ ⟨0, 0⟩,
      .tick 0 (.listed _), .tick 100 (.listed _)]
  let after : List (Call Float32 Float) := [.tick 150 (.listed _), .tick 250 (.listed _)]
  let request : Call Float32 Float := .deleteConnection ⟨"conn-1"⟩
  have hconfig : (EditorConfig.standard : EditorConfig).validate = .ok () := by decide +kernel
  have hfinite : Scalar.isFinite (0 : Float) = true ∧ Scalar.isFinite (100 : Float) = true ∧
      Scalar.isFinite (150 : Float) = true ∧ Scalar.isFinite (250 : Float) = true ∧
        Scalar.isFinite (449 : Float) = true ∧ Scalar.isFinite (450 : Float) = true := by
    decide +kernel
  have hsorted : (0 : Float) ≤ 100 ∧ (100 : Float) ≤ 150 ∧ (150 : Float) ≤ 250 ∧
      (250 : Float) ≤ 449 ∧ (250 : Float) ≤ 450 := by decide +kernel
  have hnext (now : Float) (hnow : Scalar.isFinite now = true) (hle : (250 : Float) ≤ now) :
      Orderly ((before ++ request :: after) ++ [.tick now (.listed _)]) := by
    constructor
    · simp [before, after, request, Call.IsTimely, hfinite, hnow]
    · show ([0, 100, 150, 250, now] : List Float).IsChain (· ≤ ·)
      simp [hsorted, hle]
  have hsoon := hnext 449 hfinite.2.2.2.2.1 hsorted.2.2.2.1
  have hlate := hnext 450 hfinite.2.2.2.2.2 hsorted.2.2.2.2
  have hfades : (run .standard 1 before).Fades request ⟨"conn-1"⟩ := by
    have hlive : (run .standard 1 before).connections.any
        (fun c ↦ c.id = ⟨"conn-1"⟩ && c.isDeleting = false) = true := by decide +kernel
    have hdeleting : ((run .standard 1 before).apply request).connections.any
        (fun d ↦ d.id = ⟨"conn-1"⟩ && d.isDeleting = true) = true := by decide +kernel
    exact ⟨by simpa using hlive, by simpa using hdeleting⟩
  have hearly : ∀ now ∈ tickTimes after, ¬ Due .standard after now := by
    have hdue : ¬ (EditorConfig.standard : EditorConfig).deletionMs ≤ (150 : Float) - 150 ∧
        ¬ (EditorConfig.standard : EditorConfig).deletionMs ≤ (250 : Float) - 150 := by
      decide +kernel
    show ∀ now ∈ ([150, 250] : List Float),
      ¬ (EditorConfig.standard : EditorConfig).deletionMs ≤ now - 150
    simpa using hdue
  have hdue : ¬ Due .standard after (449 : Float) ∧ Due .standard after (450 : Float) := by
    show ¬ (EditorConfig.standard : EditorConfig).deletionMs ≤ (449 : Float) - 150 ∧
      (EditorConfig.standard : EditorConfig).deletionMs ≤ (450 : Float) - 150
    decide +kernel
  obtain ⟨hall, -, hfading⟩ := progress_over_time hconfig 1 hsoon.left
  obtain ⟨c, hc, hid, -, hfalls, hpurged⟩ :=
    hfading before request after ⟨"conn-1"⟩ rfl hfades ⟨id, id, trivial⟩ hearly
  exact ⟨before, after, request, hconfig, hsoon.left, hfades, c, hc, hid, (hall c hc).1,
    hfalls (.tick 449 (.listed _)) hsoon id (List.cons_ne_nil _ _),
    mt (hpurged 449 (.listed _) hsoon).1.mp hdue.1, (hpurged 450 (.listed _) hlate).1.mpr hdue.2⟩

end LayerCanvas.Graph
