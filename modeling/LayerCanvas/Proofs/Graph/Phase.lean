import LayerCanvas.Proofs.Binary.Clock
import LayerCanvas.Proofs.Config
import LayerCanvas.Proofs.Graph.WellFormed
import LayerCanvas.Proofs.Tween

/-!
The life of a connection. A connection is being created, or at rest, or being deleted, and its flags
and its tween always say the same of it, provided that the settings pass their check and that the
ticks come at finite times, in whatever order. Its life goes one way: nothing but a load takes it
from rest back to its creation, or back from its deletion.
-/

set_option autoImplicit false
set_option relaxedAutoImplicit false

namespace LayerCanvas

variable {C R : Type}

/-- The three states of a connection. -/
inductive Phase
  | creating
  | settled
  | deleting
  deriving DecidableEq

/-- Whether a connection in one state can be in another one after a call. -/
def Phase.Precedes (p q : Phase) : Prop :=
  (p = .settled → q ≠ .creating) ∧ (p = .deleting → q = .deleting)

/-- A call that, if it is a tick, comes at a finite time. -/
def Call.IsTimely [Scalar R] : Call C R → Prop
  | .tick now _ => Scalar.isFinite now = true
  | _ => True

namespace Graph

/-- Whether the flags of a connection and its tween say that it is in a state. -/
def InPhase [Scalar C] (g : Graph C R) (c : Connection C) : Phase → Prop
  | .creating => c.isAnimating = true ∧ c.isDeleting = false ∧
    ∃ t, g.animator.find? c.id = some t ∧ t.kind = .creation
  | .settled => c.isAnimating = false ∧ c.isDeleting = false ∧
    g.animator.find? c.id = none ∧ c.progress = 1
  | .deleting => c.isAnimating = false ∧ c.isDeleting = true ∧
    ∃ t, g.animator.find? c.id = some t ∧ t.kind = .deletion

/-- A graph with settings whose animations have a finite and positive length. -/
structure Tuned [Scalar R] (g : Graph C R) (config : EditorConfig C R) : Prop where
  config_eq : g.config = config
  creation_eq : g.animator.duration .creation = config.creationMs
  deletion_eq : g.animator.duration .deletion = config.deletionMs
  creation_positive : Scalar.isPositive config.creationMs = true
  deletion_positive : Scalar.isPositive config.deletionMs = true

theorem Tuned.isPositive_duration [Scalar R] {g : Graph C R} {config : EditorConfig C R}
    (h : g.Tuned config) (kind : TweenKind) :
    Scalar.isPositive (g.animator.duration kind) = true := by
  cases kind with
  | creation =>
    rw [h.creation_eq]
    exact h.creation_positive
  | deletion =>
    rw [h.deletion_eq]
    exact h.deletion_positive

theorem Tuned.of_eq [Scalar R] {g g' : Graph C R} {config : EditorConfig C R} (h : g.Tuned config)
    (hconfig : g'.config = g.config) (hduration : g'.animator.duration = g.animator.duration) :
    g'.Tuned config := by
  refine ⟨hconfig.trans h.config_eq, ?_, ?_, h.creation_positive, h.deletion_positive⟩
  · rw [hduration]
    exact h.creation_eq
  · rw [hduration]
    exact h.deletion_eq

theorem tuned_empty [Scalar C] [Scalar R] [Precision C R] {config : EditorConfig C R}
    (hconfig : config.validate = .ok ()) (serial : Nat) : (empty config serial).Tuned config := by
  obtain ⟨hcreation, hdeletion⟩ := config.durations_of_validate hconfig
  exact ⟨rfl, rfl, rfl, hcreation, hdeletion⟩

/-- A graph in which every connection is in one of the states. -/
structure Phased [Scalar C] [Scalar R] (g : Graph C R) (config : EditorConfig C R) : Prop where
  tuned : g.Tuned config
  timed : ∀ id t, g.animator.find? id = some t → t.Timed
  inPhase : ∀ c ∈ g.connections, ∃ p, g.InPhase c p

variable [Scalar C] {g g' : Graph C R}

theorem inPhase_unique {c : Connection C} {p q : Phase} (hp : g.InPhase c p) (hq : g.InPhase c q) :
    p = q := by
  cases p <;> cases q <;> first | rfl | simp_all [InPhase]

/-- The phase of a connection is read off its flags, its name, its progress and its own tween. -/
theorem InPhase.congr {c d : Connection C} {p : Phase} (h : g.InPhase c p)
    (hstate : d.state = c.state)
    (htween : g'.animator.find? c.id = g.animator.find? c.id) : g'.InPhase d p := by
  have hid : d.id = c.id := congrArg (fun state ↦ state.1.1) hstate
  have hanimating : d.isAnimating = c.isAnimating := congrArg (fun state ↦ state.2.1) hstate
  have hdeleting : d.isDeleting = c.isDeleting := congrArg (fun state ↦ state.2.2.1) hstate
  have hprogress : d.progress = c.progress := congrArg (fun state ↦ state.2.2.2) hstate
  cases p <;> simpa only [InPhase, hid, hanimating, hdeleting, hprogress, htween] using h

namespace Phased

variable [Scalar R] {config : EditorConfig C R}

theorem empty [Precision C R] (hconfig : config.validate = .ok ()) (serial : Nat) :
    (empty config serial).Phased config := by
  refine ⟨tuned_empty hconfig serial, fun id t ht ↦ ?_, fun c hc ↦ ?_⟩
  · cases ht
  · cases hc

/-! ### Changes -/

theorem timed_start (h : g.Phased config)
    (id : ConnectionId) (kind : TweenKind) (other : ConnectionId) (t : Tween R)
    (ht : (g.animator.start id kind).find? other = some t) : t.Timed := by
  rw [Animator.find?_start] at ht
  split_ifs at ht with hother
  · rw [← Option.some.inj ht]
    exact ⟨fun _ hstart ↦ (by cases hstart), h.tuned.isPositive_duration kind⟩
  · exact h.timed other t ht

theorem deleteConnection (h : g.Phased config)
    (id : ConnectionId) : (g.deleteConnection id).Phased config := by
  rcases g.deleteConnection_eq id with heq | ⟨-, heq⟩
  · rwa [heq]
  · rw [heq]
    refine ⟨h.tuned.of_eq rfl rfl, h.timed_start id .deletion, ?_⟩
    intro d hd
    obtain ⟨c, hc, rfl⟩ := List.mem_map.mp hd
    by_cases hid : c.id = id
    · rw [if_pos hid]
      refine ⟨.deleting, rfl, rfl, ⟨.deletion, g.animator.duration .deletion, none⟩, ?_, rfl⟩
      exact (Animator.find?_start ..).trans (if_pos hid)
    · rw [if_neg hid]
      obtain ⟨p, hp⟩ := h.inPhase c hc
      exact ⟨p, hp.congr rfl ((Animator.find?_start ..).trans (if_neg hid))⟩

theorem fadeAll (h : g.Phased config)
    (ids : List ConnectionId) : (g.fadeAll ids).Phased config := by
  induction ids generalizing g with
  | nil => exact h
  | cons id rest ih => exact ih (h.deleteConnection id)

theorem change (h : g.Phased config)
    (hstep : Change g g') : g'.Phased config := by
  cases hstep with
  | alike hlike =>
    refine ⟨h.tuned.of_eq hlike.config (by rw [hlike.animator]), ?_, ?_⟩
    · rw [hlike.animator]
      exact h.timed
    · intro d hd
      obtain ⟨c, hc, hstate⟩ := List.mem_map.mp (hlike.states ▸ List.mem_map_of_mem hd)
      obtain ⟨p, hp⟩ := h.inPhase c hc
      exact ⟨p, hp.congr hstate.symm (by rw [hlike.animator])⟩
  | place n serial hn => exact ⟨h.tuned.of_eq rfl rfl, h.timed, h.inPhase⟩
  | connect id source target start stop serial hid hok =>
    refine ⟨h.tuned.of_eq rfl rfl, h.timed_start id .creation, ?_⟩
    intro d hd
    rcases List.mem_append.mp hd with hold | hnew
    · obtain ⟨p, hp⟩ := h.inPhase d hold
      have hne : d.id ≠ id := fun heq ↦ hid (heq ▸ mem_connectionIds hold)
      exact ⟨p, hp.congr rfl ((Animator.find?_start ..).trans (if_neg hne))⟩
    · rw [List.mem_singleton.mp hnew]
      refine ⟨.creating, rfl, rfl, ⟨.creation, g.animator.duration .creation, none⟩, ?_, rfl⟩
      exact (Animator.find?_start ..).trans (if_pos rfl)
  | fade id => exact h.deleteConnection id
  | remove id hmem hstays huntouched =>
    exact ⟨h.tuned.of_eq rfl rfl, h.timed, h.inPhase⟩
  | await id hmem hstays htouched =>
    have hfaded : (g.fadeAt id).Phased config := h.fadeAll _
    exact ⟨hfaded.tuned.of_eq rfl rfl, hfaded.timed, hfaded.inPhase⟩

/-! ### Ticks -/

section

variable [Precision C R] {now : R} {c d : Connection C}

theorem ticked_settled (hwf : g.WellFormed) (hp : g.InPhase c .settled)
    (hd : c.after? g.animator now = some d) : (g.ticked now).InPhase d .settled := by
  obtain ⟨hanimating, hdeleting, hnone, hprogress⟩ := hp
  have hfind := find?_ticked hwf.tweens_nodup now c.id
  unfold Connection.after? at hd
  rw [hnone] at hd hfind
  cases hd
  exact ⟨hanimating, hdeleting, hfind, hprogress⟩

variable [Clock R] [Easing C R]

/-- A connection settles in the tick in which its tween finishes, since the tween goes in that tick.
-/
theorem ticked_creating (h : g.Phased config) (hwf : g.WellFormed)
    (hnow : Scalar.isFinite now = true) (hp : g.InPhase c .creating)
    (hd : c.after? g.animator now = some d) :
    (g.ticked now).InPhase d .settled ∨ (g.ticked now).InPhase d .creating := by
  obtain ⟨hanimating, hdeleting, t, ht, hkind⟩ := hp
  have hid : d.id = c.id := congrArg Prod.fst (Connection.after?_frame hd).1
  have htimed : (t.latch now).Timed := (h.timed c.id t ht).latch hnow
  have hpurges : ((t.latch now).sample (C := C) c.id now).purges = false := by
    simp [TweenSample.purges, Tween.sample, hkind]
  have hfind := find?_ticked hwf.tweens_nodup now c.id
  unfold Connection.after? at hd
  rw [ht] at hd hfind
  simp only [Connection.absorb?, Tween.sample, Tween.kind_latch, hkind, if_true,
    Option.some.injEq] at hd
  rw [Option.map_some, Option.filter_some, hpurges] at hfind
  by_cases hfinished : 1 ≤ (t.latch now).fraction now
  · left
    have hrunning := (Tween.one_le_fraction_iff htimed hnow).mp hfinished
    have hprogress : (Precision.narrow ((t.latch now).progress now) : C) = 1 :=
      Tween.narrow_progress_of_finished htimed hkind hfinished
    simp [InPhase, ← hd, hfinished, hdeleting, hprogress, hfind, hrunning]
  · right
    have hrunning : (t.latch now).isRunning now = true := by
      rw [← Bool.not_eq_false, ← Tween.one_le_fraction_iff htimed hnow]
      exact hfinished
    simp [InPhase, ← hd, hfinished, hdeleting, hfind, hrunning, hkind]

omit [Easing C R] in
/-- A connection that fades and is there after a tick has a tween that goes on. -/
theorem ticked_deleting (h : g.Phased config) (hwf : g.WellFormed)
    (hnow : Scalar.isFinite now = true) (hp : g.InPhase c .deleting)
    (hd : c.after? g.animator now = some d) : (g.ticked now).InPhase d .deleting := by
  obtain ⟨hanimating, hdeleting, t, ht, hkind⟩ := hp
  have hid : d.id = c.id := congrArg Prod.fst (Connection.after?_frame hd).1
  have htimed : (t.latch now).Timed := (h.timed c.id t ht).latch hnow
  have hfind := find?_ticked hwf.tweens_nodup now c.id
  unfold Connection.after? at hd
  rw [ht] at hd hfind
  have hunfinished : ¬ 1 ≤ (t.latch now).fraction now := fun hfinished ↦ by
    simp [Connection.absorb?, Tween.sample, hkind, hfinished] at hd
  have hrunning : (t.latch now).isRunning now = true := by
    rw [← Bool.not_eq_false, ← Tween.one_le_fraction_iff htimed hnow]
    exact hunfinished
  have hpurges : ((t.latch now).sample (C := C) c.id now).purges = false := by
    simp [TweenSample.purges, Tween.sample, hunfinished]
  simp only [Connection.absorb?, Tween.sample, Tween.kind_latch, hkind, if_true, hunfinished,
    decide_false, Option.some.injEq] at hd
  rw [Option.map_some, Option.filter_some, hpurges] at hfind
  simp [InPhase, ← hd, hanimating, hdeleting, hfind, hrunning, hkind]

/-- What becomes of one connection in a tick at a finite time. -/
theorem ticked_connection (h : g.Phased config) (hwf : g.WellFormed)
    (hnow : Scalar.isFinite now = true) (hc : c ∈ g.connections)
    (hd : c.after? g.animator now = some d) :
    ∃ q, (g.ticked now).InPhase d q ∧ ∀ p, g.InPhase c p → p.Precedes q := by
  obtain ⟨p, hp⟩ := h.inPhase c hc
  suffices hphase : ∃ q, (g.ticked now).InPhase d q ∧ p.Precedes q by
    obtain ⟨q, hq, hpq⟩ := hphase
    refine ⟨q, hq, fun p' hp' ↦ ?_⟩
    rwa [inPhase_unique hp' hp]
  cases p with
  | settled => exact ⟨.settled, ticked_settled hwf hp hd, by simp [Phase.Precedes]⟩
  | creating =>
    rcases h.ticked_creating hwf hnow hp hd with hsettled | hcreating
    · exact ⟨.settled, hsettled, by simp [Phase.Precedes]⟩
    · exact ⟨.creating, hcreating, by simp [Phase.Precedes]⟩
  | deleting => exact ⟨.deleting, h.ticked_deleting hwf hnow hp hd, by simp [Phase.Precedes]⟩

end

theorem ticked [Precision C R] [Clock R] [Easing C R] (h : g.Phased config) (hwf : g.WellFormed)
    {now : R} (hnow : Scalar.isFinite now = true) : (g.ticked now).Phased config := by
  refine ⟨h.tuned.of_eq rfl rfl, fun id t' ht' ↦ ?_, fun d hd ↦ ?_⟩
  · rw [find?_ticked hwf.tweens_nodup, Option.filter_eq_some_iff] at ht'
    obtain ⟨t, ht, rfl⟩ := Option.map_eq_some_iff.mp ht'.1
    exact (h.timed id t ht).latch hnow
  · obtain ⟨c, hc, hcd⟩ := mem_connections_ticked_iff.mp hd
    obtain ⟨q, hq, -⟩ := h.ticked_connection hwf hnow hc hcd
    exact ⟨q, hq⟩

end Phased

/-! ### Loads -/

theorem load_frame {s : Snapshot C R} (h : g.load s = .ok g') :
    g'.config = g.config ∧ g'.animator.duration = (empty g.config g.serial).animator.duration := by
  refine load_induction (P := fun g' ↦ g'.config = g.config ∧
    g'.animator.duration = (empty g.config g.serial).animator.duration) ⟨rfl, rfl⟩ ?_ ?_ h
  · intro g₁ g₂ n hframe hok
    obtain ⟨-, -, rfl⟩ := insertNode_eq_ok_iff.mp hok
    exact hframe
  · intro g₁ g₂ c hframe hok
    obtain ⟨-, -, -, _, _, -, -, rfl⟩ := insertConnection_eq_ok_iff.mp hok
    exact hframe

theorem AtRest.settled_inPhase (h : g.AtRest) {c : Connection C} (hc : c ∈ g.connections) :
    g.InPhase c .settled := by
  obtain ⟨hanimating, hdeleting, hprogress⟩ := h.settled c hc
  refine ⟨hanimating, hdeleting, ?_, hprogress⟩
  rw [Animator.find?, h.tweens]
  rfl

theorem Tuned.load [Scalar R] {config : EditorConfig C R} (h : g.Tuned config) {s : Snapshot C R}
    (hok : g.load s = .ok g') : g'.Tuned config := by
  obtain ⟨hconfig, hduration⟩ := load_frame hok
  have hfresh : (Graph.empty g.config g.serial).Tuned config := by
    rw [h.config_eq]
    exact ⟨rfl, rfl, rfl, h.creation_positive, h.deletion_positive⟩
  exact hfresh.of_eq hconfig hduration

theorem Phased.load [Scalar R] {config : EditorConfig C R} (h : g.Phased config) {s : Snapshot C R}
    (hok : g.load s = .ok g') : g'.Phased config := by
  have hrest : g'.AtRest := atRest_load hok
  refine ⟨h.tuned.load hok, fun id t ht ↦ ?_, fun c hc ↦ ?_⟩
  · rw [Animator.find?, hrest.tweens] at ht
    cases ht
  · exact ⟨.settled, hrest.settled_inPhase hc⟩

/-! ### From one call to the next -/

/-- A graph that has come from another one without a tick: what was there has its name still, has
not come back from fading, and has not begun to appear again. -/
structure Grows (g g' : Graph C R) : Prop where
  ids : g.connectionIds ⊆ g'.connectionIds
  origin : ∀ d ∈ g'.connections, d.id ∈ g.connectionIds → ∃ c ∈ g.connections, d.id = c.id ∧
    (c.isDeleting = true → d.isDeleting = true) ∧ (c.isAnimating = false → d.isAnimating = false)

namespace Grows

omit [Scalar C]

theorem refl (g : Graph C R) : Grows g g :=
  ⟨List.Subset.refl _, fun d hd _ ↦ ⟨d, hd, rfl, fun h ↦ h, fun h ↦ h⟩⟩

theorem trans {g'' : Graph C R} (h : Grows g g') (h' : Grows g' g'') : Grows g g'' := by
  refine ⟨List.Subset.trans h.ids h'.ids, fun e he heid ↦ ?_⟩
  obtain ⟨d, hd, hed, hdeleting', hanimating'⟩ := h'.origin e he (h.ids heid)
  obtain ⟨c, hc, hdc, hdeleting, hanimating⟩ := h.origin d hd (hed ▸ heid)
  exact ⟨c, hc, hed.trans hdc, fun h ↦ hdeleting' (hdeleting h), fun h ↦ hanimating' (hanimating h)⟩

theorem of_eq (h : g'.connections = g.connections) : Grows g g' := by
  refine ⟨?_, fun d hd _ ↦ ⟨d, h ▸ hd, rfl, fun h ↦ h, fun h ↦ h⟩⟩
  rw [connectionIds, connectionIds, h]
  exact List.Subset.refl _

theorem of_states (h : g'.connections.map Connection.state = g.connections.map Connection.state) :
    Grows g g' := by
  have hids (g : Graph C R) :
      g.connectionIds = (g.connections.map Connection.state).map fun state ↦ state.1.1 := by
    simp [connectionIds, Connection.state, Connection.link, Function.comp_def]
  refine ⟨by rw [hids g, hids g', h]; exact List.Subset.refl _, fun d hd _ ↦ ?_⟩
  obtain ⟨c, hc, hstate⟩ := List.mem_map.mp (h ▸ List.mem_map_of_mem hd)
  have hdeleting : c.isDeleting = d.isDeleting := congrArg (fun state ↦ state.2.2.1) hstate
  have hanimating : c.isAnimating = d.isAnimating := congrArg (fun state ↦ state.2.1) hstate
  exact ⟨c, hc, congrArg (fun state ↦ state.1.1) hstate.symm, fun h ↦ hdeleting ▸ h,
    fun h ↦ hanimating ▸ h⟩

theorem deleteConnection (g : Graph C R) (id : ConnectionId) : Grows g (g.deleteConnection id) := by
  refine ⟨?_, fun d hd _ ↦ ?_⟩
  · rw [← map_fst_links, ← map_fst_links, g.links_deleteConnection]
    exact List.Subset.refl _
  · rcases g.deleteConnection_eq id with heq | ⟨-, heq⟩
    · rw [heq] at hd
      exact ⟨d, hd, rfl, fun h ↦ h, fun h ↦ h⟩
    · rw [heq] at hd
      obtain ⟨c, hc, rfl⟩ := List.mem_map.mp hd
      split_ifs
      · exact ⟨c, hc, rfl, fun _ ↦ rfl, fun _ ↦ rfl⟩
      · exact ⟨c, hc, rfl, fun h ↦ h, fun h ↦ h⟩

theorem fadeAll (g : Graph C R) (ids : List ConnectionId) : Grows g (g.fadeAll ids) := by
  induction ids generalizing g with
  | nil => exact .refl g
  | cons id rest ih => exact (deleteConnection g id).trans (ih _)

theorem connect [Scalar C] {id : ConnectionId} (hid : id ∉ g.connectionIds) {made : Connection C}
    (hmade : made.id = id) (h : g'.connections = g.connections ++ [made]) : Grows g g' := by
  refine ⟨?_, fun d hd hdid ↦ ?_⟩
  · rw [connectionIds, connectionIds, h, List.map_append]
    exact List.subset_append_left _ _
  · rw [h] at hd
    rcases List.mem_append.mp hd with hold | hnew
    · exact ⟨d, hold, rfl, fun h ↦ h, fun h ↦ h⟩
    · rw [List.mem_singleton.mp hnew, hmade] at hdid
      exact absurd hdid hid

theorem change [Scalar C] (hstep : Change g g') : Grows g g' := by
  -- Only a connection that is made or told to fade enters a phase; the others keep theirs.
  cases hstep with
  | alike hlike => exact .of_states hlike.states
  | place n serial hn => exact .of_eq rfl
  | connect id source target start stop serial hid hok =>
    exact .connect hid (Connection.id_new ..) rfl
  | fade id => exact .deleteConnection g id
  | remove id hmem hstays huntouched => exact .of_eq rfl
  | await id hmem hstays htouched => exact (fadeAll g _).trans (.of_eq rfl)

theorem changes [Scalar C] (hsteps : Changes g g') : Grows g g' :=
  hsteps.keep (P := Grows g) (fun _ _ h hstep ↦ h.trans (.change hstep)) (.refl g)

end Grows

theorem Grows.precedes (h : Grows g g') (hnodup : g.connectionIds.Nodup) {c d : Connection C}
    (hc : c ∈ g.connections) (hd : d ∈ g'.connections) (hid : d.id = c.id) {p q : Phase}
    (hp : g.InPhase c p) (hq : g'.InPhase d q) : p.Precedes q := by
  obtain ⟨c', hc', hdc', hdeleting, hanimating⟩ := h.origin d hd (hid ▸ mem_connectionIds hc)
  have hsame : c' = c := List.inj_on_of_nodup_map hnodup hc' hc (hdc'.symm.trans hid)
  subst hsame
  constructor
  · rintro rfl rfl
    have hstill := hanimating hp.1
    rw [hq.1] at hstill
    cases hstill
  · rintro rfl
    have hstill := hdeleting hp.2.1
    cases q with
    | deleting => rfl
    | creating => exact absurd hq.2.1 (by simp [hstill])
    | settled => exact absurd hq.2.1 (by simp [hstill])

variable [Scalar R] [Precision C R] [Clock R] [Easing C R] {config : EditorConfig C R}

theorem Phased.apply (h : g.Phased config) (hwf : g.WellFormed) {call : Call C R}
    (hcall : call.IsTimely) : (g.apply call).Phased config := by
  rcases g.apply_cases call with ⟨-, hsteps⟩ | ⟨now, order, rfl⟩ | ⟨-, s, hok⟩
  · exact hsteps.keep (P := fun g ↦ g.Phased config) (fun _ _ h hstep ↦ h.change hstep) h
  · rw [Graph.apply, (tickIn_eq hwf.tickable now order).1]
    exact h.ticked hwf hcall
  · exact h.load hok

theorem Phased.precedes (h : g.Phased config) (hwf : g.WellFormed) {call : Call C R}
    (hcall : call.IsTimely) (hload : ¬ g.Loads call) {c d : Connection C} (hc : c ∈ g.connections)
    (hd : d ∈ (g.apply call).connections) (hid : d.id = c.id) {p q : Phase} (hp : g.InPhase c p)
    (hq : (g.apply call).InPhase d q) : p.Precedes q := by
  rcases g.apply_cases call with ⟨-, hsteps⟩ | ⟨now, order, rfl⟩ | ⟨hloads, -⟩
  · exact (Grows.changes hsteps).precedes hwf.connectionIds_nodup hc hd hid hp hq
  · rw [Graph.apply, (tickIn_eq hwf.tickable now order).1] at hd hq
    obtain ⟨c', hc', hc'd⟩ := mem_connections_ticked_iff.mp hd
    have hidc' : c'.id = c.id :=
      (congrArg Prod.fst (Connection.after?_frame hc'd).1).symm.trans hid
    have hsame : c' = c := List.inj_on_of_nodup_map hwf.connectionIds_nodup hc' hc hidc'
    subst hsame
    obtain ⟨q', hq', hprecedes⟩ := h.ticked_connection hwf hcall hc' hc'd
    rw [inPhase_unique hq hq']
    exact hprecedes p hp
  · exact absurd hloads hload

theorem phased_run (hconfig : config.validate = .ok ()) (serial : Nat) (calls : List (Call C R))
    (hcalls : ∀ call ∈ calls, call.IsTimely) :
    (run config serial calls).WellFormed ∧ (run config serial calls).Phased config :=
  applyAll_induction (P := fun g ↦ g.WellFormed ∧ g.Phased config)
    (fun _ call hcall h ↦ ⟨h.1.apply call, h.2.apply h.1 hcall⟩) calls hcalls _
    ⟨.empty config serial, .empty hconfig serial⟩

/-! ### Machine numbers -/

/-- With settings that pass their check and ticks at finite times, every connection is in exactly
one of the three states, and no call but a load that succeeds takes it from rest back to its
creation or out of its deletion. After such a load every connection is at rest. -/
theorem phase_of_connection {config : EditorConfig} (hconfig : config.validate = .ok ())
    (serial : Nat) {calls : List (Call Float32 Float)} (hcalls : ∀ call ∈ calls, call.IsTimely) :
    (∀ c ∈ (run config serial calls).connections, ∃! p, (run config serial calls).InPhase c p) ∧
      ∀ call : Call Float32 Float, call.IsTimely →
        (¬ (run config serial calls).Loads call →
          ∀ c ∈ (run config serial calls).connections,
            ∀ d ∈ ((run config serial calls).apply call).connections, d.id = c.id → ∀ p q,
              (run config serial calls).InPhase c p →
                ((run config serial calls).apply call).InPhase d q → p.Precedes q) ∧
        ((run config serial calls).Loads call →
          ∀ d ∈ ((run config serial calls).apply call).connections,
            ((run config serial calls).apply call).InPhase d .settled) := by
  obtain ⟨hwf, hphased⟩ := phased_run hconfig serial calls hcalls
  refine ⟨fun c hc ↦ ?_, fun call hcall ↦
    ⟨fun hload c hc d hd hid p q hp hq ↦ ?_, fun hload d hd ↦ ?_⟩⟩
  · obtain ⟨p, hp⟩ := hphased.inPhase c hc
    exact ⟨p, hp, fun q hq ↦ inPhase_unique hq hp⟩
  · exact hphased.precedes hwf hcall hload hc hd hid hp hq
  · obtain ⟨s, hok⟩ := exists_load_of_loads hload
    exact (atRest_load hok).settled_inPhase hd

/-- A connection that was told to fade in the middle of its creation. -/
theorem phase_of_connection_fading :
    ∃ calls : List (Call Float32 Float), (EditorConfig.standard : EditorConfig).validate = .ok () ∧
      (∀ call ∈ calls, call.IsTimely) ∧ ∃ c ∈ (run .standard 1 calls).connections,
        c.isDeleting = true ∧ ∃! p, (run .standard 1 calls).InPhase c p := by
  let layer : Layer := ⟨"Input", "", "", "", .empty, "", ""⟩
  let node (text : String) : Node := ⟨⟨text⟩, layer, ⟨0, 0⟩, 140, 86⟩
  let calls : List (Call Float32 Float) :=
    [.insertNode (node "a"), .insertNode (node "b"), .addConnection ⟨"a"⟩ ⟨"b"⟩ ⟨0, 0⟩ ⟨0, 0⟩,
      .tick 0 (.listed _), .deleteConnection ⟨"conn-1"⟩, .tick 100 (.listed _)]
  have hconfig : (EditorConfig.standard : EditorConfig).validate = .ok () := by decide +kernel
  have htimely : Scalar.isFinite (0 : Float) = true ∧ Scalar.isFinite (100 : Float) = true := by
    decide +kernel
  have hcalls : ∀ call ∈ calls, call.IsTimely := by
    simp [calls, Call.IsTimely, htimely]
  have hfading : (run .standard 1 calls).connections.any Connection.isDeleting = true := by
    decide +kernel
  obtain ⟨c, hc, hdeleting⟩ := List.any_eq_true.mp hfading
  obtain ⟨hphase, -⟩ := phase_of_connection hconfig 1 hcalls
  exact ⟨calls, hconfig, hcalls, c, hc, hdeleting, hphase c hc⟩

end Graph

end LayerCanvas
