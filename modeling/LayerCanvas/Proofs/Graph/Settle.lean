import LayerCanvas.Proofs.Binary.Difference
import LayerCanvas.Proofs.Graph.Lasting
import LayerCanvas.Proofs.Graph.Phase
import LayerCanvas.Proofs.Graph.Simple

/-!
How the animations end. A tick gives every tween a start that is not later than the tick. A second
tick that is later by the longer of the two durations finds the time of all of them over, whenever
they started, so that no tween is left. A graph without tweens is at rest: what was fading has gone
and taken the nodes along that waited for it, what was appearing is there as a whole, and nothing
else has changed.
-/

set_option autoImplicit false
set_option relaxedAutoImplicit false

namespace LayerCanvas

variable {C R : Type}

/-- A call that, if it is a tick, comes at a finite time that is not later than another one. -/
def Call.IsBy [Scalar R] (t : R) : Call C R → Prop
  | .tick now _ => Scalar.isFinite now = true ∧ now ≤ t
  | _ => True

theorem Call.IsBy.isTimely [Scalar R] {t : R} {call : Call C R} (h : call.IsBy t) :
    call.IsTimely := by
  cases call with
  | tick now order => exact h.1
  | _ => trivial

theorem Connection.settled_of_outline [Scalar C] {c d : Connection C}
    (h : d.outline = c.outline) : d.settled = c.settled := by
  simp only [outline, link, Prod.mk.injEq] at h
  obtain ⟨⟨hid, hsource, htarget⟩, hstart, hstop⟩ := h
  simp only [settled, hid, hsource, htarget, hstart, hstop]

theorem Connection.settled_eq_self [Scalar C] {c : Connection C}
    (h : c.isAnimating = false ∧ c.isDeleting = false ∧ c.progress = 1) : c.settled = c := by
  obtain ⟨hanimating, hdeleting, hprogress⟩ := h
  cases c
  simp only at hanimating hdeleting hprogress
  subst hanimating hdeleting hprogress
  rfl

namespace Tween

variable [Scalar R] [Chronology R]

theorem le_refl_of_isFinite {a : R} (h : Scalar.isFinite a = true) : a ≤ a := by
  by_cases hlt : a < a
  · exact Chronology.le_of_lt a a hlt
  · exact Chronology.le_of_not_lt a a h h hlt

/-- Whatever is not less than the larger of two numbers is not less than either. -/
theorem le_of_larger_le {a b x : R} (ha : Scalar.isFinite a = true) (hb : Scalar.isFinite b = true)
    (h : Scalar.larger a b ≤ x) : a ≤ x ∧ b ≤ x := by
  unfold Scalar.larger at h
  rw [if_pos (Chronology.isNumber_of_isFinite b hb)] at h
  split_ifs at h with hlt
  · exact ⟨h, Chronology.le_trans b a x (Chronology.le_of_lt b a hlt) h⟩
  · exact ⟨Chronology.le_trans a b x (Chronology.le_of_not_lt a b ha hb hlt) h, h⟩

/-- A tween that started by one time is over at another one that is later by its duration. -/
theorem isRunning_late {t : Tween R} {start t₀ t₁ : R} (hstarted : t.startedAt = some start)
    (hstart : Scalar.isFinite start = true) (ht₀ : Scalar.isFinite t₀ = true)
    (ht₁ : Scalar.isFinite t₁ = true) (hby : start ≤ t₀) (hlate : t.duration ≤ t₁ - t₀) :
    t.isRunning t₁ = false := by
  have helapsed : t.elapsed t₁ = t₁ - start := by rw [elapsed, hstarted, Option.getD_some]
  have hlonger : t₁ - t₀ ≤ t₁ - start :=
    Chronology.sub_le_sub_left start t₀ t₁ hstart ht₀ ht₁ hby
  rw [isRunning, helapsed, decide_eq_false_iff_not]
  exact Chronology.not_lt_of_le _ _ (Chronology.le_trans _ _ _ hlate hlonger)

end Tween

namespace Graph

/-! ### When tweens start -/

theorem deleteConnection_tween {g : Graph C R} {deleted id : ConnectionId} {t : Tween R}
    (ht : (g.deleteConnection deleted).animator.find? id = some t) :
    g.animator.find? id = some t ∨ ∃ kind, t = ⟨kind, g.animator.duration kind, none⟩ := by
  rcases g.deleteConnection_eq deleted with heq | ⟨-, heq⟩ <;> rw [heq] at ht
  · exact Or.inl ht
  · rw [Animator.find?_start] at ht
    split_ifs at ht
    · exact Or.inr ⟨.deletion, (Option.some.inj ht).symm⟩
    · exact Or.inl ht

theorem duration_deleteConnection (g : Graph C R) (id : ConnectionId) :
    (g.deleteConnection id).animator.duration = g.animator.duration := by
  rcases g.deleteConnection_eq id with heq | ⟨-, heq⟩ <;> rw [heq]
  rfl

theorem fadeAll_tween {g : Graph C R} {ids : List ConnectionId} {id : ConnectionId} {t : Tween R}
    (ht : (g.fadeAll ids).animator.find? id = some t) :
    g.animator.find? id = some t ∨ ∃ kind, t = ⟨kind, g.animator.duration kind, none⟩ := by
  induction ids generalizing g with
  | nil => exact Or.inl ht
  | cons first rest ih =>
    rcases ih (g := g.deleteConnection first) ht with hold | hnew
    · exact deleteConnection_tween hold
    · rw [duration_deleteConnection] at hnew
      exact Or.inr hnew

/-- A tween after a change was there before, or begins at the next tick and lasts as long as the
settings say. -/
theorem Change.tween [Scalar C] {g g' : Graph C R} (hstep : Change g g') {id : ConnectionId}
    {t : Tween R} (ht : g'.animator.find? id = some t) :
    g.animator.find? id = some t ∨ ∃ kind, t = ⟨kind, g.animator.duration kind, none⟩ := by
  cases hstep with
  | alike hlike => exact Or.inl (hlike.animator ▸ ht)
  | place n serial hn => exact Or.inl ht
  | connect made source target start stop serial hid hok =>
    have hstarted : (g.animator.start made .creation).find? id = some t := ht
    rw [Animator.find?_start] at hstarted
    split_ifs at hstarted
    · exact Or.inr ⟨.creation, (Option.some.inj hstarted).symm⟩
    · exact Or.inl hstarted
  | fade deleted => exact deleteConnection_tween ht
  | remove deleted hmem hstays huntouched => exact Or.inl ht
  | await deleted hmem hstays htouched => exact fadeAll_tween ht

/-- A graph whose tweens last as long as the settings say, and have not started after some time. -/
def ClockedBy [Scalar R] (g : Graph C R) (config : EditorConfig C R) (t : R) : Prop :=
  ∀ id tween, g.animator.find? id = some tween →
    (tween.duration = config.creationMs ∨ tween.duration = config.deletionMs) ∧
      ∀ start, tween.startedAt = some start → start ≤ t

variable [Scalar C] [Scalar R] {g g' : Graph C R} {config : EditorConfig C R} {t₀ t₁ : R}

namespace ClockedBy

omit [Scalar C] in
theorem empty (config : EditorConfig C R) (serial : Nat) (t : R) :
    (empty config serial).ClockedBy config t :=
  fun _ _ htween ↦ nomatch htween

theorem change (h : g.ClockedBy config t₀) (htuned : g.Tuned config) (hstep : Change g g') :
    g'.ClockedBy config t₀ := by
  intro id tween htween
  rcases hstep.tween htween with hold | ⟨kind, rfl⟩
  · exact h id tween hold
  · refine ⟨?_, fun start hstart ↦ nomatch hstart⟩
    cases kind with
    | creation => exact Or.inl htuned.creation_eq
    | deletion => exact Or.inr htuned.deletion_eq

theorem load {s : Snapshot C R} (hok : g.load s = .ok g') : g'.ClockedBy config t₀ := by
  intro id tween htween
  rw [Animator.find?, (atRest_load hok).tweens] at htween
  cases htween

variable [Precision C R]

omit [Scalar C] in
theorem ticked (h : g.ClockedBy config t₀) (hwell : g.WellFormed) {now : R} (hnow : now ≤ t₀) :
    (g.ticked now).ClockedBy config t₀ := by
  intro id tween' htween'
  rw [find?_ticked hwell.tweens_nodup, Option.filter_eq_some_iff] at htween'
  obtain ⟨tween, htween, rfl⟩ := Option.map_eq_some_iff.mp htween'.1
  obtain ⟨hduration, hstart⟩ := h id tween htween
  refine ⟨hduration, fun start hlatched ↦ ?_⟩
  have hlatched : tween.startedAt.getD now = start := Option.some.inj hlatched
  cases hold : tween.startedAt with
  | none =>
    rw [hold] at hlatched
    exact hlatched ▸ hnow
  | some old =>
    rw [hold] at hlatched
    exact hlatched ▸ hstart old hold

end ClockedBy

variable [Precision C R] [Clock R] [Easing C R]

theorem clockedBy_run (hconfig : config.validate = .ok ()) (serial : Nat)
    {calls : List (Call C R)} (hcalls : ∀ call ∈ calls, call.IsBy t₀) :
    (run config serial calls).ClockedBy config t₀ := by
  refine (applyAll_induction
    (P := fun g ↦ (g.WellFormed ∧ g.Phased config) ∧ g.ClockedBy config t₀)
    (fun g call hcall h ↦ ⟨⟨h.1.1.apply call, h.1.2.apply h.1.1 hcall.isTimely⟩, ?_⟩) calls hcalls _
    ⟨⟨.empty config serial, .empty hconfig serial⟩, .empty config serial t₀⟩).2
  rcases g.apply_cases call with ⟨-, hsteps⟩ | ⟨now, order, rfl⟩ | ⟨-, s, hok⟩
  · exact (hsteps.keep (P := fun g ↦ g.Phased config ∧ g.ClockedBy config t₀)
      (fun _ _ h hstep ↦ ⟨h.1.change hstep, h.2.change h.1.tuned hstep⟩) ⟨h.1.2, h.2⟩).2
  · rw [Graph.apply, (tickIn_eq h.1.1.tickable now order).1]
    exact h.2.ticked h.1.1 hcall.2
  · exact .load hok

/-! ### The second tick -/

omit [Clock R] [Easing C R] in
/-- No tween is left by a tick that is late enough after another one. -/
theorem tweens_ticked_ticked [Chronology R] (hwell : g.WellFormed) (hphased : g.Phased config)
    (hclocked : g.ClockedBy config t₀) (ht₀ : Scalar.isFinite t₀ = true)
    (ht₁ : Scalar.isFinite t₁ = true) (hcreation : config.creationMs ≤ t₁ - t₀)
    (hdeletion : config.deletionMs ≤ t₁ - t₀) :
    ((g.ticked t₀).ticked t₁).animator.tweens = [] := by
  have hnone (id : ConnectionId) : ((g.ticked t₀).ticked t₁).animator.find? id = none := by
    rw [find?_ticked (hwell.ticked t₀).tweens_nodup, Option.filter_eq_none_iff]
    intro tween' htween'
    obtain ⟨latched, hlatched, rfl⟩ := Option.map_eq_some_iff.mp htween'
    have hclocked' := (hclocked.ticked hwell (Tween.le_refl_of_isFinite ht₀)) id latched hlatched
    rw [find?_ticked hwell.tweens_nodup, Option.filter_eq_some_iff] at hlatched
    obtain ⟨tween, htween, rfl⟩ := Option.map_eq_some_iff.mp hlatched.1
    have htimed := (hphased.timed id tween htween).latch ht₀
    have hlate : tween.duration ≤ t₁ - t₀ := by
      rcases hclocked'.1 with hduration | hduration
      · exact hduration ▸ hcreation
      · exact hduration ▸ hdeletion
    have hover : ((tween.latch t₀).latch t₁).isRunning t₁ = false :=
      Tween.isRunning_late rfl (htimed.start _ rfl) ht₀ ht₁ (hclocked'.2 _ rfl) hlate
    simp [hover]
  have hids : ((g.ticked t₀).ticked t₁).animator.ids = [] :=
    List.eq_nil_iff_forall_not_mem.mpr fun id ↦ Animator.find?_eq_none_iff.mp (hnone id)
  exact List.map_eq_nil_iff.mp hids

omit [Precision C R] [Clock R] [Easing C R] in
/-- A graph without tweens is at rest. -/
theorem Phased.atRest (h : g.Phased config) (hsimple : g.Simple)
    (htweens : g.animator.tweens = []) : g.AtRest := by
  have hsettled (c : Connection C) (hc : c ∈ g.connections) :
      c.isAnimating = false ∧ c.isDeleting = false ∧ c.progress = 1 := by
    have hnone : g.animator.find? c.id = none := by
      rw [Animator.find?, htweens]
      rfl
    obtain ⟨p, hp⟩ := h.inPhase c hc
    cases p with
    | settled => exact ⟨hp.1, hp.2.1, hp.2.2.2⟩
    | creating =>
      obtain ⟨-, -, t, ht, -⟩ := hp
      rw [hnone] at ht
      cases ht
    | deleting =>
      obtain ⟨-, -, t, ht, -⟩ := hp
      rw [hnone] at ht
      cases ht
  refine ⟨List.eq_nil_iff_forall_not_mem.mpr fun id hid ↦ ?_, htweens, hsettled⟩
  obtain ⟨c, hc, hdeleting, -⟩ := hsimple.leaving_touched id hid
  rw [(hsettled c hc).2.1] at hdeleting
  cases hdeleting

omit [Scalar R] [Precision C R] [Clock R] [Easing C R] in
/-- A graph at rest that has come from another one by ticks has all that was there to stay, and
nothing else. -/
theorem AtRest.of_lasts (h : g'.AtRest) (hlasts : Lasts g g') :
    g'.connections = g.liveConnections.map Connection.settled ∧ g'.nodes = g.stayingNodes := by
  have hlive : g'.liveConnections = g'.connections :=
    List.filter_eq_self.mpr fun c hc ↦ by simp [Connection.isLive, (h.settled c hc).2.1]
  have hsettled : g'.connections.map Connection.settled = g'.connections := by
    conv_rhs => rw [← List.map_id g'.connections]
    exact List.map_congr_left fun c hc ↦ Connection.settled_eq_self (h.settled c hc)
  have hlasting : g'.connections.map Connection.settled =
      g.liveConnections.map Connection.settled := by
    have houtlines := hlasts.outlines
    rw [hlive, ← List.forall₂_eq_eq_eq, List.forall₂_map_left_iff, List.forall₂_map_right_iff]
      at houtlines
    rw [← List.forall₂_eq_eq_eq, List.forall₂_map_left_iff, List.forall₂_map_right_iff]
    exact houtlines.imp fun _ _ ↦ Connection.settled_of_outline
  exact ⟨hsettled.symm.trans hlasting,
    (stayingNodes_of_leaving h.leaving).symm.trans hlasts.stayingNodes⟩

/-! ### Machine numbers -/

/-- With settings that pass their check, two ticks end all animations, if the first one is not
earlier than any before it and the second one is later by the longer of the two durations. The
connections are then those that were live, in their order, and appear as a whole; the nodes are
those that did not wait, in the order they are painted; and no frame is needed. -/
theorem settled_after_two_ticks {config : EditorConfig} (hconfig : config.validate = .ok ())
    (serial : Nat) {calls : List (Call Float32 Float)} {t₀ t₁ : Float}
    (hcalls : ∀ call ∈ calls, call.IsBy t₀) (ht₀ : Scalar.isFinite t₀ = true)
    (ht₁ : Scalar.isFinite t₁ = true)
    (hlate : Scalar.larger config.creationMs config.deletionMs ≤ t₁ - t₀)
    (first second : SampleOrder Float32) :
    let g := run config serial calls
    let last := (g.tickIn t₀ first).1.tickIn t₁ second
    last.1.AtRest ∧ last.1.isAnimating = false ∧ last.2.needsFrame = false ∧
      last.1.connections = g.liveConnections.map Connection.settled ∧
        last.1.nodes = g.nodes.filter fun n ↦ !g.isLeaving n.id := by
  intro g last
  obtain ⟨hwell, hphased⟩ := phased_run hconfig serial calls fun call hcall ↦
    (hcalls call hcall).isTimely
  have hsimple : g.Simple := simple_run config serial calls
  have hspares : g.SparesLive := sparesLive_run config serial calls
  obtain ⟨hcreation, hdeletion⟩ := config.durations_of_validate hconfig
  obtain ⟨hlateCreation, hlateDeletion⟩ := Tween.le_of_larger_le
    (Bool.and_eq_true_iff.mp hcreation).1 (Bool.and_eq_true_iff.mp hdeletion).1 hlate
  have hlast : last.1 = (g.ticked t₀).ticked t₁ := by
    show ((g.tickIn t₀ first).1.tickIn t₁ second).1 = _
    rw [(tickIn_eq hwell.tickable t₀ first).1, (tickIn_eq (hwell.ticked t₀).tickable t₁ second).1]
  have htweens := tweens_ticked_ticked hwell hphased (clockedBy_run hconfig serial hcalls) ht₀ ht₁
    hlateCreation hlateDeletion
  have hrest : last.1.AtRest := by
    rw [hlast]
    exact ((hphased.ticked hwell ht₀).ticked (hwell.ticked t₀) ht₁).atRest
      ((hsimple.ticked t₀).ticked t₁) htweens
  have hlasts : Lasts g last.1 := by
    rw [hlast]
    exact (lasts_ticked hspares t₀).trans (lasts_ticked (hspares.ticked hwell t₀) t₁)
  exact ⟨hrest, hrest.isAnimating, hrest.isAnimating, hrest.of_lasts hlasts⟩

/-- Of four nodes in a row the second one is deleted while all three connections appear. Ticks at
150 and 650 milliseconds leave three nodes and the last connection. -/
theorem settled_after_two_ticks_midway :
    ∃ (calls : List (Call Float32 Float)) (t₀ t₁ : Float),
      (EditorConfig.standard : EditorConfig).validate = .ok () ∧
        (∀ call ∈ calls, call.IsBy t₀) ∧ (run .standard 1 calls).connections.length = 3 ∧
          (run .standard 1 calls).isLeaving ⟨"b"⟩ = true ∧
            ∃ g : Graph, g.AtRest ∧ g.nodes.map Node.id = [⟨"a"⟩, ⟨"c"⟩, ⟨"d"⟩] ∧
              g.connections.map Connection.link = [(⟨"conn-3"⟩, ⟨"c"⟩, ⟨"d"⟩)] ∧
                g = (((run .standard 1 calls).tickIn t₀ (.listed _)).1.tickIn t₁
                  (.listed _)).1 := by
  let layer : Layer := ⟨"Input", "", "", "", .empty, "", ""⟩
  let node (text : String) : Call Float32 Float := .insertNode ⟨⟨text⟩, layer, ⟨0, 0⟩, 140, 86⟩
  let connect (source target : String) : Call Float32 Float :=
    .addConnection ⟨source⟩ ⟨target⟩ ⟨0, 0⟩ ⟨0, 0⟩
  let calls : List (Call Float32 Float) :=
    [node "a", node "b", node "c", node "d", connect "a" "b", connect "b" "c", connect "c" "d",
      .tick 0 (.listed _), .deleteNode ⟨"b"⟩, .tick 100 (.listed _)]
  have hconfig : (EditorConfig.standard : EditorConfig).validate = .ok () := by decide +kernel
  have htimes : (Scalar.isFinite (0 : Float) = true ∧ (0 : Float) ≤ 150) ∧
      Scalar.isFinite (100 : Float) = true ∧ (100 : Float) ≤ 150 := by decide +kernel
  have hcalls : ∀ call ∈ calls, call.IsBy 150 := by
    simp [calls, node, connect, Call.IsBy, htimes]
  have hlate : Scalar.larger (EditorConfig.standard : EditorConfig).creationMs
      (EditorConfig.standard : EditorConfig).deletionMs ≤ (650 : Float) - 150 := by decide +kernel
  have hcount : (run .standard 1 calls).connections.length = 3 := by decide +kernel
  have hleaving : (run .standard 1 calls).isLeaving ⟨"b"⟩ = true := by decide +kernel
  have hnodes : ((run .standard 1 calls).nodes.filter fun n ↦
      !(run .standard 1 calls).isLeaving n.id).map Node.id = [⟨"a"⟩, ⟨"c"⟩, ⟨"d"⟩] := by
    decide +kernel
  have hlinks : ((run .standard 1 calls).liveConnections.map Connection.settled).map
      Connection.link = [(⟨"conn-3"⟩, ⟨"c"⟩, ⟨"d"⟩)] := by decide +kernel
  obtain ⟨hrest, -, -, hconnections, hkept⟩ := settled_after_two_ticks hconfig 1 hcalls
    (by decide +kernel) (by decide +kernel) hlate (.listed _) (.listed _)
  rw [← hconnections] at hlinks
  rw [← hkept] at hnodes
  exact ⟨calls, 150, 650, hconfig, hcalls, hcount, hleaving, _, hrest, hnodes, hlinks, rfl⟩

end Graph

end LayerCanvas
