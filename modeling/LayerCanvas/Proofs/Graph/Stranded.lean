import LayerCanvas.Proofs.Graph.Phase
import LayerCanvas.Proofs.Graph.Simple

/-!
Fades that nothing ends. A connection that fades goes when its tween finishes, and as long as it has
a tween more ticks are asked for. A tick at a time at which it cannot be told how long the tween has
been running takes the tween away unfinished and leaves the connection stranded. There is no other
way to strand a connection, whatever the times of the ticks, and no way back but a load.
-/

set_option autoImplicit false
set_option relaxedAutoImplicit false

namespace LayerCanvas

variable {C R : Type}

/-- The calls that neither tick nor load. -/
def Call.IsPlain : Call C R → Prop
  | .tick _ _ | .load _ | .loadDocument _ => False
  | _ => True

theorem Call.IsPlain.not_loads [Scalar C] {call : Call C R} (h : call.IsPlain) (g : Graph C R) :
    ¬ g.Loads call := by
  cases call <;> first | exact h.elim | exact id

namespace Graph

/-- A connection that fades and has no tween to end it. -/
def Stranded (g : Graph C R) (c : Connection C) : Prop :=
  c ∈ g.connections ∧ c.isDeleting = true ∧ g.animator.find? c.id = none

/-- Whether at a time it cannot be told of some fade how long it has been running. -/
def Strands [Scalar R] (g : Graph C R) (now : R) : Prop :=
  ∃ c ∈ g.connections, c.isDeleting = true ∧
    ∃ t, g.animator.find? c.id = some t ∧ ¬ t.Measurable now

variable {g g' : Graph C R} {c d : Connection C}

/-- Without stranded connections the animations are under way until everything has gone that fades
or waits. -/
theorem isAnimating_of_fading (hsimple : g.Simple) (hnone : ∀ c, ¬ g.Stranded c)
    (h : (∃ c ∈ g.connections, c.isDeleting = true) ∨ ∃ id, id ∈ g.leaving) :
    g.isAnimating = true := by
  have hfading : ∃ c ∈ g.connections, c.isDeleting = true := by
    rcases h with hfading | ⟨id, hid⟩
    · exact hfading
    · obtain ⟨c, hc, hdeleting, -⟩ := hsimple.leaving_touched id hid
      exact ⟨c, hc, hdeleting⟩
  obtain ⟨c, hc, hdeleting⟩ := hfading
  have htween : g.animator.find? c.id ≠ none := fun hgone ↦ hnone c ⟨hc, hdeleting, hgone⟩
  cases htweens : g.animator.tweens with
  | nil => exact absurd (by rw [Animator.find?, htweens, List.lookup_nil]) htween
  | cons entry rest => simp [isAnimating, Animator.isIdle, htweens]

/-! ### Changes -/

/-- What becomes of fades and tweens between two ticks. -/
structure Begins (g g' : Graph C R) : Prop where
  config : g'.config = g.config
  duration : g'.animator.duration = g.animator.duration
  /-- A tween was there before, or is new. -/
  tweens : ∀ id t, g'.animator.find? id = some t →
    g.animator.find? id = some t ∨ t = ⟨t.kind, g.animator.duration t.kind, none⟩
  /-- A connection that fades goes on fading with the tween it has, if it has one. -/
  stays : ∀ c ∈ g.connections, c.isDeleting = true → ∃ d ∈ g'.connections,
    d.link = c.link ∧ d.isDeleting = true ∧ g'.animator.find? d.id = g.animator.find? c.id
  /-- A connection that begins to fade has a new tween. -/
  fresh : ∀ d ∈ g'.connections, d.isDeleting = true →
    (∃ c ∈ g.connections, c.link = d.link ∧ c.isDeleting = true ∧
      g'.animator.find? d.id = g.animator.find? c.id) ∨
    g'.animator.find? d.id = some ⟨.deletion, g.animator.duration .deletion, none⟩

namespace Begins

theorem of_eq (hconfig : g'.config = g.config) (hanimator : g'.animator = g.animator)
    (hconnections : g'.connections = g.connections) : Begins g g' := by
  refine ⟨hconfig, by rw [hanimator], fun id t ht ↦ Or.inl (hanimator ▸ ht), fun c hc hdel ↦ ?_,
    fun d hd hdel ↦ Or.inl ?_⟩
  · exact ⟨c, hconnections ▸ hc, rfl, hdel, by rw [hanimator]⟩
  · exact ⟨d, hconnections ▸ hd, rfl, hdel, by rw [hanimator]⟩

theorem refl (g : Graph C R) : Begins g g := of_eq rfl rfl rfl

theorem trans {g'' : Graph C R} (h : Begins g g') (h' : Begins g' g'') : Begins g g'' := by
  refine ⟨h'.config.trans h.config, h'.duration.trans h.duration, fun id t ht ↦ ?_,
    fun c hc hdel ↦ ?_, fun e he hdel ↦ ?_⟩
  · rcases h'.tweens id t ht with hold | hnew
    · exact h.tweens id t hold
    · exact Or.inr (h.duration ▸ hnew)
  · obtain ⟨d, hd, hlink, hdel', hfind⟩ := h.stays c hc hdel
    obtain ⟨e, he, hlink', hdel'', hfind'⟩ := h'.stays d hd hdel'
    exact ⟨e, he, hlink'.trans hlink, hdel'', hfind'.trans hfind⟩
  · rcases h'.fresh e he hdel with ⟨d, hd, hlink', hdel', hfind'⟩ | hnew
    · rw [hfind']
      rcases h.fresh d hd hdel' with ⟨c, hc, hlink, hdel'', hfind⟩ | hnew
      · exact Or.inl ⟨c, hc, hlink.trans hlink', hdel'', hfind⟩
      · exact Or.inr hnew
    · exact Or.inr (h.duration ▸ hnew)

theorem of_alike (h : Alike g g') : Begins g g' := by
  have hstates (d c : Connection C) (hstate : d.state = c.state) :
      d.link = c.link ∧ d.isDeleting = c.isDeleting ∧ d.id = c.id :=
    ⟨congrArg Prod.fst hstate, congrArg (fun state ↦ state.2.2.1) hstate,
      congrArg (fun state ↦ state.1.1) hstate⟩
  refine ⟨h.config, by rw [h.animator], fun id t ht ↦ Or.inl (h.animator ▸ ht),
    fun c hc hdel ↦ ?_, fun d hd hdel ↦ Or.inl ?_⟩
  · obtain ⟨d, hd, hstate⟩ := List.mem_map.mp (h.states ▸ List.mem_map_of_mem hc)
    obtain ⟨hlink, hdeleting, hid⟩ := hstates d c hstate
    exact ⟨d, hd, hlink, hdeleting.trans hdel, by rw [h.animator, hid]⟩
  · obtain ⟨c, hc, hstate⟩ := List.mem_map.mp (h.states ▸ List.mem_map_of_mem hd)
    obtain ⟨hlink, hdeleting, hid⟩ := hstates c d hstate
    exact ⟨c, hc, hlink, hdeleting.trans hdel, by rw [h.animator, hid]⟩

theorem tweens_start (g : Graph C R) (id : ConnectionId) (kind : TweenKind) (other : ConnectionId)
    (t : Tween R) (ht : (g.animator.start id kind).find? other = some t) :
    g.animator.find? other = some t ∨ t = ⟨t.kind, g.animator.duration t.kind, none⟩ := by
  rw [Animator.find?_start] at ht
  split_ifs at ht with hother
  · exact Or.inr (by cases ht; rfl)
  · exact Or.inl ht

theorem connect [Scalar C] {id : ConnectionId} (hid : id ∉ g.connectionIds)
    (source target : NodeId) (start stop : Point C) (serial : Nat) :
    Begins g
      { g with
        connections := g.connections ++ [.new id source target start stop]
        animator := g.animator.start id .creation
        serial } := by
  have hold {c : Connection C} (hc : c ∈ g.connections) :
      (g.animator.start id .creation).find? c.id = g.animator.find? c.id := by
    have hne : c.id ≠ id := fun heq ↦ hid (heq ▸ mem_connectionIds hc)
    exact (Animator.find?_start ..).trans (if_neg hne)
  refine ⟨rfl, rfl, tweens_start g id .creation, fun c hc hdel ↦ ?_, fun d hd hdel ↦ ?_⟩
  · exact ⟨c, List.mem_append_left _ hc, rfl, hdel, hold hc⟩
  · rcases List.mem_append.mp hd with hd | hd
    · exact Or.inl ⟨d, hd, rfl, hdel, hold hd⟩
    · rw [List.mem_singleton.mp hd] at hdel
      cases hdel

theorem deleteConnection (hnodup : g.connectionIds.Nodup) (id : ConnectionId) :
    Begins g (g.deleteConnection id) := by
  rcases g.deleteConnection_eq id with heq | ⟨⟨live, hlive, hid, hdel⟩, heq⟩
  · rw [heq]
    exact .refl g
  · have hkept {c : Connection C} (hc : c.id ≠ id) :
        (g.animator.start id .deletion).find? c.id = g.animator.find? c.id :=
      (Animator.find?_start ..).trans (if_neg hc)
    rw [heq]
    refine ⟨rfl, rfl, tweens_start g id .deletion, fun c hc hfading ↦ ?_, fun d hd hfading ↦ ?_⟩
    · -- The one connection with the name is live.
      have hne : c.id ≠ id := fun hcid ↦ by
        rw [List.inj_on_of_nodup_map hnodup hc hlive (hcid.trans hid.symm), hdel] at hfading
        cases hfading
      exact ⟨c, List.mem_map.mpr ⟨c, hc, if_neg hne⟩, rfl, hfading, hkept hne⟩
    · obtain ⟨c, hc, rfl⟩ := List.mem_map.mp hd
      by_cases hcid : c.id = id
      · right
        rw [if_pos hcid]
        exact (Animator.find?_start ..).trans (if_pos hcid)
      · rw [if_neg hcid] at hfading ⊢
        exact Or.inl ⟨c, hc, rfl, hfading, hkept hcid⟩

theorem fadeAll (h : g.WellFormed) (ids : List ConnectionId) : Begins g (g.fadeAll ids) := by
  induction ids generalizing g with
  | nil => exact .refl g
  | cons id rest ih =>
    exact (deleteConnection h.connectionIds_nodup id).trans (ih (h.deleteConnection id))

theorem change [Scalar C] (h : g.WellFormed) (hstep : Change g g') : Begins g g' := by
  cases hstep with
  | alike hlike => exact .of_alike hlike
  | place n serial hn => exact .of_eq rfl rfl rfl
  | connect id source target start stop serial hid hok =>
    exact connect hid source target start stop serial
  | fade id => exact deleteConnection h.connectionIds_nodup id
  | remove id hmem hstays huntouched => exact .of_eq rfl rfl rfl
  | await id hmem hstays htouched => exact (fadeAll h _).trans (.of_eq rfl rfl rfl)

theorem changes [Scalar C] (h : g.WellFormed) (hsteps : Changes g g') : Begins g g' :=
  (hsteps.keep (P := fun g' ↦ g'.WellFormed ∧ Begins g g')
    (fun _ _ h hstep ↦ ⟨h.1.change hstep, h.2.trans (.change h.1 hstep)⟩) ⟨h, .refl g⟩).2

theorem stranded_iff (h : Begins g g') : (∃ d, g'.Stranded d) ↔ ∃ c, g.Stranded c := by
  constructor
  · rintro ⟨d, hd, hdel, hnone⟩
    rcases h.fresh d hd hdel with ⟨c, hc, -, hdel', hfind⟩ | hnew
    · exact ⟨c, hc, hdel', hfind.symm.trans hnone⟩
    · rw [hnone] at hnew
      cases hnew
  · rintro ⟨c, hc, hdel, hnone⟩
    obtain ⟨d, hd, -, hdel', hfind⟩ := h.stays c hc hdel
    exact ⟨d, hd, hdel', hfind.trans hnone⟩

end Begins

/-! ### Ticks -/

/-- A graph whose tweens can be measured, and whose fades have the tweens of deletions. -/
structure Measured [Scalar R] (g : Graph C R) (config : EditorConfig C R) : Prop where
  tuned : g.Tuned config
  timed : ∀ id t, g.animator.find? id = some t → t.Timed
  fades : ∀ c ∈ g.connections, c.isDeleting = true → ∀ t, g.animator.find? c.id = some t →
    t.kind = .deletion

namespace Measured

variable [Scalar R] {config : EditorConfig C R}

theorem empty [Scalar C] [Precision C R] (hconfig : config.validate = .ok ()) (serial : Nat) :
    (empty config serial).Measured config := by
  refine ⟨tuned_empty hconfig serial, fun id t ht ↦ ?_, fun c hc ↦ ?_⟩
  · cases ht
  · cases hc

theorem begins (h : g.Measured config) (hbegins : Begins g g') : g'.Measured config := by
  refine ⟨h.tuned.of_eq hbegins.config hbegins.duration, fun id t ht ↦ ?_,
    fun d hd hdel t ht ↦ ?_⟩
  · rcases hbegins.tweens id t ht with hold | hnew
    · exact h.timed id t hold
    · rw [hnew]
      exact ⟨fun _ hstart ↦ (by cases hstart), h.tuned.isPositive_duration _⟩
  · rcases hbegins.fresh d hd hdel with ⟨c, hc, -, hdel', hfind⟩ | hnew
    · exact h.fades c hc hdel' t (hfind.symm.trans ht)
    · rw [hnew] at ht
      rw [← Option.some.inj ht]

theorem load [Scalar C] (h : g.Measured config) {s : Snapshot C R} (hok : g.load s = .ok g') :
    g'.Measured config := by
  have hrest : g'.AtRest := atRest_load hok
  refine ⟨h.tuned.load hok, fun id t ht ↦ ?_, fun c _ _ t ht ↦ ?_⟩
  all_goals
    rw [Animator.find?, hrest.tweens] at ht
    cases ht

variable [Precision C R] [Lapse R]

theorem ticked (h : g.Measured config) (hwf : g.WellFormed) (now : R) :
    (g.ticked now).Measured config := by
  refine ⟨h.tuned.of_eq rfl rfl, fun id t' ht' ↦ ?_, fun d hd hdel t' ht' ↦ ?_⟩
  · rw [find?_ticked hwf.tweens_nodup, Option.filter_eq_some_iff] at ht'
    obtain ⟨t, ht, rfl⟩ := Option.map_eq_some_iff.mp ht'.1
    exact (h.timed id t ht).latch_of_isRunning (Bool.and_eq_true_iff.mp ht'.2).1
  · obtain ⟨c, hc, hafter⟩ := mem_connections_ticked_iff.mp hd
    obtain ⟨hlink, hdeleting, -⟩ := Connection.after?_frame hafter
    have hid : d.id = c.id := congrArg Prod.fst hlink
    rw [find?_ticked hwf.tweens_nodup, hid, Option.filter_eq_some_iff] at ht'
    obtain ⟨t, ht, rfl⟩ := Option.map_eq_some_iff.mp ht'.1
    exact h.fades c hc (hdeleting.symm.trans hdel) t ht

end Measured

section

variable [Scalar R] [Precision C R] {now : R}

/-- A stranded connection stays where it is. -/
theorem Stranded.ticked (h : g.Stranded c) (hwf : g.WellFormed) : (g.ticked now).Stranded c := by
  obtain ⟨hc, hdel, hnone⟩ := h
  refine ⟨mem_connections_ticked_iff.mpr ⟨c, hc, ?_⟩, hdel, ?_⟩
  · rw [Connection.after?, hnone]
  · rw [find?_ticked hwf.tweens_nodup, hnone]
    rfl

variable [Clock R] [Lapse R] {config : EditorConfig C R}

/-- The tween of a fade that cannot be measured goes, and the connection stays. -/
theorem Strands.exists_stranded (h : g.Strands now) (hwf : g.WellFormed) (hm : g.Measured config) :
    ∃ d, (g.ticked now).Stranded d := by
  obtain ⟨c, hc, hdel, t, ht, hnot⟩ := h
  have hunfinished : ¬ 1 ≤ t.fraction now := Tween.not_one_le_fraction (hm.timed c.id t ht) hnot
  have hkind := hm.fades c hc hdel t ht
  cases hafter : c.after? g.animator now with
  | none =>
    simp [Connection.after?, ht, Connection.absorb?, Tween.sample, Tween.fraction_latch, hkind,
      hunfinished] at hafter
  | some d =>
    obtain ⟨hlink, hdeleting, -⟩ := Connection.after?_frame hafter
    have hid : d.id = c.id := congrArg Prod.fst hlink
    refine ⟨d, mem_connections_ticked_iff.mpr ⟨c, hc, hafter⟩, hdeleting.trans hdel, ?_⟩
    have hstopped : t.isRunning now = false := Tween.isRunning_of_not_measurable hnot
    rw [find?_ticked hwf.tweens_nodup, hid, ht, Option.map_some, Option.filter_some,
      Tween.isRunning_latch, hstopped]
    rfl

/-- A fade that can be measured has a tween as long as its connection is there. -/
theorem stranded_of_ticked (hd : (g.ticked now).Stranded d) (hwf : g.WellFormed)
    (hm : g.Measured config) : (∃ c, g.Stranded c) ∨ g.Strands now := by
  obtain ⟨hd, hdel, hnone⟩ := hd
  obtain ⟨c, hc, hafter⟩ := mem_connections_ticked_iff.mp hd
  obtain ⟨hlink, hdeleting, -⟩ := Connection.after?_frame hafter
  have hid : d.id = c.id := congrArg Prod.fst hlink
  have hfading : c.isDeleting = true := hdeleting.symm.trans hdel
  cases ht : g.animator.find? c.id with
  | none => exact Or.inl ⟨c, hc, hfading, ht⟩
  | some t =>
    refine Or.inr ⟨c, hc, hfading, t, ht, fun hmeasurable ↦ ?_⟩
    have hkind := hm.fades c hc hfading t ht
    have hiff : 1 ≤ t.fraction now ↔ t.isRunning now = false :=
      Tween.one_le_fraction_iff_of_measurable (hm.timed c.id t ht) hmeasurable
    by_cases hfinished : 1 ≤ t.fraction now
    · simp [Connection.after?, ht, Connection.absorb?, Tween.sample, Tween.fraction_latch, hkind,
        hfinished] at hafter
    · have hrunning : t.isRunning now = true := by simpa using mt hiff.mpr hfinished
      rw [find?_ticked hwf.tweens_nodup, hid, ht, Option.map_some, Option.filter_some] at hnone
      simp [Tween.isRunning_latch, hrunning, TweenSample.purges, Tween.sample, Tween.fraction_latch,
        hfinished] at hnone

end

/-! ### Calls -/

variable [Scalar C] [Scalar R] [Precision C R] [Clock R] [Lapse R] {config : EditorConfig C R}

omit [Clock R] in
theorem Measured.apply (h : g.Measured config) (hwf : g.WellFormed) (call : Call C R) :
    (g.apply call).Measured config := by
  rcases g.apply_cases call with ⟨-, hsteps⟩ | ⟨now, order, rfl⟩ | ⟨-, s, hok⟩
  · exact h.begins (.changes hwf hsteps)
  · rw [Graph.apply, (tickIn_eq hwf.tickable now order).1]
    exact h.ticked hwf now
  · exact h.load hok

omit [Clock R] in
theorem measured_run (hconfig : config.validate = .ok ()) (serial : Nat)
    (calls : List (Call C R)) : (run config serial calls).Measured config :=
  (run_induction (P := fun g ↦ g.WellFormed ∧ g.Measured config)
    ⟨.empty config serial, .empty hconfig serial⟩
    (fun _ call h ↦ ⟨h.1.apply call, h.2.apply h.1 call⟩) calls).2

/-- A call that loads nothing leaves a connection stranded exactly if one was before, or if it is a
tick that strands one. -/
theorem stranded_apply_iff (hwf : g.WellFormed) (hm : g.Measured config) {call : Call C R}
    (hcall : ¬ g.Loads call) : (∃ d, (g.apply call).Stranded d) ↔
      (∃ c, g.Stranded c) ∨ ∃ now order, call = .tick now order ∧ g.Strands now := by
  by_cases htick : ∃ now order, call = .tick now order
  · obtain ⟨now, order, rfl⟩ := htick
    rw [Graph.apply, (tickIn_eq hwf.tickable now order).1]
    constructor
    · rintro ⟨d, hd⟩
      exact (stranded_of_ticked hd hwf hm).imp_right fun hstrands ↦ ⟨now, order, rfl, hstrands⟩
    · rintro (⟨c, hc⟩ | ⟨now', order', heq, hstrands⟩)
      · exact ⟨c, hc.ticked hwf⟩
      · cases heq
        exact hstrands.exists_stranded hwf hm
  · rcases g.apply_cases call with ⟨-, hsteps⟩ | hticks | ⟨hloads, -⟩
    · rw [(Begins.changes hwf hsteps).stranded_iff]
      refine (or_iff_left ?_).symm
      rintro ⟨now, order, heq, -⟩
      exact htick ⟨now, order, heq⟩
    · exact absurd hticks htick
    · exact absurd hloads hcall

/-- Calls that neither tick nor load neither strand a connection nor take a stranded one away. -/
theorem stranded_applyAll_iff (hwf : g.WellFormed) (hm : g.Measured config)
    {calls : List (Call C R)} (hcalls : ∀ call ∈ calls, call.IsPlain) :
    (∃ d, (g.applyAll calls).Stranded d) ↔ ∃ c, g.Stranded c := by
  induction calls generalizing g with
  | nil => exact Iff.rfl
  | cons call rest ih =>
    obtain ⟨hcall, hrest⟩ := List.forall_mem_cons.mp hcalls
    rw [applyAll_cons, ih (hwf.apply call) (hm.apply hwf call) hrest,
      stranded_apply_iff hwf hm (hcall.not_loads g)]
    refine or_iff_left ?_
    rintro ⟨now, order, rfl, -⟩
    exact hcall

omit [Scalar R] [Precision C R] [Clock R] [Lapse R] in
/-- A load strands nothing. -/
theorem not_stranded_of_load {s : Snapshot C R} (h : g.load s = .ok g') (c : Connection C) :
    ¬ g'.Stranded c := by
  rintro ⟨hc, hdel, -⟩
  rw [((atRest_load h).settled c hc).2.1] at hdel
  cases hdel

end Graph

end LayerCanvas
