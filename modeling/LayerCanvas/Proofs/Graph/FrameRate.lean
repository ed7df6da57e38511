import LayerCanvas.Proofs.Binary.Difference
import LayerCanvas.Proofs.Graph.Phase
import LayerCanvas.Proofs.Graph.Report

/-!
How little the frame rate matters. The first tick gives every tween its start, and from then on a
tween is read off the time alone: what a tick shows is overwritten by a later one, and what is over
at one time is over at every later time. So any number of ticks can be left out between a first and
a last one. The graph is the same in the end, and the same connections and nodes have gone, though
they may have gone in other ticks.
-/

set_option autoImplicit false
set_option relaxedAutoImplicit false

namespace LayerCanvas

variable {C R : Type}

/-! ### One tween -/

namespace Tween

variable [Scalar R] {t : Tween R} {s now : R}

/-- Whether one tick can be left out before another one, as far as a tween goes: it has the same
start in both, and it is not over in the first one unless it is over in the second one. -/
structure Spans (t : Tween R) (s now : R) : Prop where
  latch_eq : t.latch s = t.latch now
  isRunning : (t.latch now).isRunning now = true → (t.latch s).isRunning s = true

theorem spans_self (t : Tween R) (now : R) : t.Spans now now := ⟨rfl, fun h ↦ h⟩

/-- A tween that has started spans every two times of which the second is not the earlier one. -/
theorem spans_of_le [Passage R] (h : t.Timed) (hstarted : t.startedAt ≠ none)
    (hs : Scalar.isFinite s = true) (hnow : Scalar.isFinite now = true) (hle : s ≤ now) :
    t.Spans s now := by
  obtain ⟨start, hstart⟩ := Option.ne_none_iff_exists'.mp hstarted
  have hlatch (time : R) : t.latch time = t := by
    cases t
    cases hstart
    rfl
  refine ⟨(hlatch s).trans (hlatch now).symm, fun hrunning ↦ ?_⟩
  have hpassed : s - start ≤ now - start :=
    Passage.sub_le_sub_right s now start hs hnow (h.start start hstart) hle
  rw [hlatch, isRunning, elapsed, hstart, Option.getD_some, decide_eq_true_iff] at hrunning ⊢
  exact Passage.lt_of_le_of_lt _ _ _ hpassed hrunning

end Tween

/-- Of two times that go through the table one after the other the first one can be left out. -/
theorem Animator.advance_advance [Scalar R] {a : Animator R} {s now : R}
    (h : ∀ entry ∈ a.tweens, entry.2.Spans s now) :
    (a.advance s).advance now = a.advance now := by
  unfold advance
  congr 1
  dsimp only
  generalize a.tweens = tweens at h ⊢
  induction tweens with
  | nil => rfl
  | cons entry rest ih =>
    have hrest := ih fun other hother ↦ h other (List.mem_cons_of_mem _ hother)
    have hentry : entry.2.Spans s now := h entry List.mem_cons_self
    have hlatch : (entry.2.latch s).latch now = entry.2.latch now := by
      rw [← hentry.latch_eq]
      rfl
    by_cases hs : (entry.2.latch s).isRunning s = true
    · by_cases hnow : (entry.2.latch now).isRunning now = true <;>
        simpa [hs, hnow, hlatch] using hrest
    · have hnow : ¬ (entry.2.latch now).isRunning now = true := mt hentry.isRunning hs
      simpa [hs, hnow] using hrest

/-! ### One connection -/

namespace Connection

/-- Of two samples of one tween the second one decides, if the first one leaves its connection. -/
theorem absorb?_absorb? {c d : Connection C} {first second : TweenSample C}
    (hid : second.id = first.id) (hkind : second.kind = first.kind)
    (h : c.absorb? first = some d) : d.absorb? second = c.absorb? second := by
  obtain ⟨id, kind, progress, finished⟩ := first
  obtain ⟨id', kind', progress', finished'⟩ := second
  dsimp only at hid hkind
  subst hid hkind
  by_cases hc : id' = c.id
  · cases kind' <;> cases finished <;> simp only [absorb?, hc, if_true, reduceCtorEq,
      Option.some.injEq] at h <;> subst h <;> cases finished' <;> simp [absorb?, hc]
  · rw [absorb?_of_ne hc] at h
    rw [← Option.some.inj h]

end Connection

namespace Graph

variable [Scalar R] {g : Graph C R} {config : EditorConfig C R} {s now : R}

/-- Whether one tick can be left out before another one. -/
def Spans (g : Graph C R) (s now : R) : Prop :=
  ∀ id t, g.animator.find? id = some t → t.Spans s now

/-- A graph all of whose tweens have started. -/
def Started (g : Graph C R) : Prop := ∀ id t, g.animator.find? id = some t → t.startedAt ≠ none

theorem spans_self (g : Graph C R) (now : R) : g.Spans now now := fun _ t _ ↦ t.spans_self now

variable [Scalar C]

theorem Started.spans [Passage R] (h : g.Started) (hphased : g.Phased config)
    (hs : Scalar.isFinite s = true) (hnow : Scalar.isFinite now = true) (hle : s ≤ now) :
    g.Spans s now :=
  fun id t ht ↦ Tween.spans_of_le (hphased.timed id t ht) (h id t ht) hs hnow hle

namespace Phased

variable [Clock R]

/-- At a finite time a tween has finished exactly when it does not go on. -/
theorem finished_iff (h : g.Phased config) (hnow : Scalar.isFinite now = true)
    {id : ConnectionId} {t : Tween R} (ht : g.animator.find? id = some t) :
    1 ≤ (t.latch now).fraction now ↔ (t.latch now).isRunning now = false :=
  Tween.one_le_fraction_iff ((h.timed id t ht).latch hnow) hnow

variable [Precision C R]

/-- At a finite time the only tweens that end are those whose time is over. -/
theorem animator_ticked (h : g.Phased config) (hwell : g.WellFormed)
    (hnow : Scalar.isFinite now = true) : (g.ticked now).animator = g.animator.advance now := by
  rw [Graph.animator_ticked]
  conv_rhs => rw [← (g.animator.advance now).keep_true]
  refine Animator.keep_congr fun id hid ↦ ?_
  obtain ⟨t', ht'⟩ :=
    Option.ne_none_iff_exists'.mp (mt Animator.find?_eq_none_iff.mp (not_not.mpr hid))
  rw [Animator.find?_advance hwell.tweens_nodup, Option.filter_eq_some_iff] at ht'
  obtain ⟨hlatched, hrunning⟩ := ht'
  obtain ⟨t, ht, rfl⟩ := Option.map_eq_some_iff.mp hlatched
  have hunfinished : ¬ 1 ≤ (t.latch now).fraction now := by
    rw [h.finished_iff hnow ht, hrunning]
    exact Bool.noConfusion
  simp [ht, TweenSample.purges, Tween.sample, hunfinished]

theorem started_ticked (h : g.Phased config) (hwell : g.WellFormed)
    (hnow : Scalar.isFinite now = true) : (g.ticked now).Started := by
  intro id t' ht'
  rw [h.animator_ticked hwell hnow, Animator.find?_advance hwell.tweens_nodup,
    Option.filter_eq_some_iff] at ht'
  obtain ⟨t, -, rfl⟩ := Option.map_eq_some_iff.mp ht'.1
  exact Option.some_ne_none _

variable [Easing C R]

/-- What becomes of a connection in two ticks becomes of it in the second one alone. -/
theorem after?_after? (h : g.Phased config) (hwell : g.WellFormed)
    (hs : Scalar.isFinite s = true) (hnow : Scalar.isFinite now = true) (hspans : g.Spans s now)
    (c : Connection C) :
    (c.after? g.animator s).bind (fun d ↦ d.after? (g.ticked s).animator now) =
      c.after? g.animator now := by
  have hfind := Animator.find?_advance hwell.tweens_nodup s c.id
  rw [h.animator_ticked hwell hs]
  cases ht : g.animator.find? c.id with
  | none =>
    rw [ht] at hfind
    simp [Connection.after?, ht, hfind]
  | some t =>
    have hafter (time : R) :
        c.after? g.animator time = c.absorb? ((t.latch time).sample c.id time) := by
      simp only [Connection.after?, ht]
    have hspan : t.Spans s now := hspans c.id t ht
    rw [ht] at hfind
    rw [hafter, hafter]
    cases hrunning : (t.latch s).isRunning s with
    | true =>
      -- The tween goes on, and the sample of the second tick overwrites that of the first one.
      have hfind : (g.animator.advance s).find? c.id = some (t.latch s) := by
        simp [hfind, hrunning]
      have hkept : ((t.latch s).sample (C := C) c.id s).purges = false := by
        have hunfinished : ¬ 1 ≤ (t.latch s).fraction s := by
          rw [h.finished_iff hs ht, hrunning]
          exact Bool.noConfusion
        simp [TweenSample.purges, Tween.sample, hunfinished]
      cases hd : c.absorb? ((t.latch s).sample c.id s) with
      | none => simp [(Connection.absorb?_eq_none_iff.mp hd).2] at hkept
      | some d =>
        have hdid : d.id = c.id := congrArg Prod.fst (Connection.absorb?_frame hd).1
        have hlatch : (t.latch s).latch now = t.latch now := by
          rw [← hspan.latch_eq]
          rfl
        rw [Option.bind_some]
        simp only [Connection.after?, hdid, hfind, hlatch]
        refine Connection.absorb?_absorb? ?_ ?_ hd <;> rfl
    | false =>
      -- The tween is over at both times, and the end of a creation looks the same at both.
      have hfind : (g.animator.advance s).find? c.id = none := by simp [hfind, hrunning]
      have hover : (t.latch now).isRunning now = false := by
        by_contra hgoing
        rw [hspan.isRunning (by simpa using hgoing)] at hrunning
        cases hrunning
      have hfirst := (h.finished_iff hs ht).mpr hrunning
      have hsecond := (h.finished_iff hnow ht).mpr hover
      cases hkind : t.kind with
      | creation =>
        have hshown : (Precision.narrow ((t.latch s).progress s) : C) =
            Precision.narrow ((t.latch now).progress now) :=
          (Tween.narrow_progress_of_finished ((h.timed c.id t ht).latch hs) hkind hfirst).trans
            (Tween.narrow_progress_of_finished ((h.timed c.id t ht).latch hnow) hkind hsecond).symm
        simp [Connection.absorb?, Tween.sample, hkind, hshown, hfirst, hsecond,
          Connection.after?, hfind]
      | deletion => simp [Connection.absorb?, Tween.sample, hkind, hfirst, hsecond]

theorem connections_ticked_ticked (h : g.Phased config) (hwell : g.WellFormed)
    (hs : Scalar.isFinite s = true) (hnow : Scalar.isFinite now = true) (hspans : g.Spans s now) :
    ((g.ticked s).ticked now).connections = (g.ticked now).connections := by
  show ((g.connections.filterMap fun c ↦ c.after? g.animator s).filterMap
    fun d ↦ d.after? (g.ticked s).animator now) = g.connections.filterMap _
  rw [List.filterMap_filterMap]
  exact List.filterMap_congr fun c _ ↦ h.after?_after? hwell hs hnow hspans c

theorem animator_ticked_ticked (h : g.Phased config) (hwell : g.WellFormed)
    (hs : Scalar.isFinite s = true) (hnow : Scalar.isFinite now = true) (hspans : g.Spans s now) :
    ((g.ticked s).ticked now).animator = (g.ticked now).animator := by
  rw [(h.ticked hwell hs).animator_ticked (hwell.ticked s) hnow, h.animator_ticked hwell hs,
    h.animator_ticked hwell hnow]
  refine Animator.advance_advance fun entry hentry ↦ hspans entry.1 entry.2 ?_
  exact (Animator.find?_eq_some_iff hwell.tweens_nodup).mpr hentry

/-- A node that goes in a tick would have gone in an earlier one, or waits then and goes all the
same. -/
theorem mem_released_ticked_iff (h : g.Phased config) (hwell : g.WellFormed)
    (hs : Scalar.isFinite s = true) (hnow : Scalar.isFinite now = true) (hspans : g.Spans s now)
    (id : NodeId) :
    id ∈ g.released now ↔ id ∈ g.released s ∨ id ∈ (g.ticked s).released now := by
  have htouched : ((g.ticked s).ticked now).isTouched id = (g.ticked now).isTouched id := by
    rw [isTouched, h.connections_ticked_ticked hwell hs hnow hspans, isTouched]
  have huntouched : (g.ticked s).isTouched id = false → (g.ticked now).isTouched id = false := by
    rw [← htouched]
    exact (Thins.ticked (g.ticked s) now).isTouched_eq_false
  have hleaving : id ∈ (g.ticked s).leaving ↔ id ∈ g.leaving ∧ id ∉ g.released s := by
    simp [Graph.ticked]
  rw [mem_released_iff, mem_released_iff, mem_released_iff, htouched, hleaving, mem_released_iff]
  tauto

/-- A tick can be left out before another one if every tween spans the two times. -/
theorem ticked_ticked (h : g.Phased config) (hwell : g.WellFormed)
    (hs : Scalar.isFinite s = true) (hnow : Scalar.isFinite now = true) (hspans : g.Spans s now) :
    (g.ticked s).ticked now = g.ticked now := by
  have hkept (id : NodeId) :
      (!((g.ticked s).released now).contains id && !(g.released s).contains id) =
        !(g.released now).contains id := by
    rw [← Bool.not_or, Bool.eq_iff_iff]
    simp [h.mem_released_ticked_iff hwell hs hnow hspans id, and_comm]
  have hnodes : ((g.ticked s).ticked now).nodes = (g.ticked now).nodes := by
    show ((g.nodes.filter fun n ↦ !(g.released s).contains n.id).filter
      fun n ↦ !((g.ticked s).released now).contains n.id) = g.nodes.filter _
    rw [List.filter_filter]
    exact List.filter_congr fun n _ ↦ hkept n.id
  have hleaving : ((g.ticked s).ticked now).leaving = (g.ticked now).leaving := by
    show ((g.leaving.filter fun id ↦ !(g.released s).contains id).filter
      fun id ↦ !((g.ticked s).released now).contains id) = g.leaving.filter _
    rw [List.filter_filter]
    exact List.filter_congr fun id _ ↦ hkept id
  show Graph.mk _ _ _ _ _ _ = Graph.mk _ _ _ _ _ _
  rw [Graph.mk.injEq]
  exact ⟨rfl, hnodes, h.connections_ticked_ticked hwell hs hnow hspans, hleaving,
    h.animator_ticked_ticked hwell hs hnow hspans, rfl⟩

end Phased

/-! ### Many ticks -/

variable [Precision C R]

theorem tickAll_cons (h : g.WellFormed) (tick : R × SampleOrder C)
    (rest : List (R × SampleOrder C)) :
    g.tickAll (tick :: rest) = (g.ticked tick.1).tickAll rest := by
  have hnext : g.apply (.tick tick.1 tick.2) = g.ticked tick.1 :=
    (tickIn_eq h.tickable tick.1 tick.2).1
  rw [tickAll, List.map_cons, applyAll_cons, hnext, tickAll]

/-- What the reports of several ticks say one after the other. -/
def reported {α : Type} (part : TickOutcome → List α) (g : Graph C R) :
    List (R × SampleOrder C) → List α
  | [] => []
  | tick :: rest =>
    part (g.tickIn tick.1 tick.2).2 ++ reported part (g.tickIn tick.1 tick.2).1 rest

/-- A part of the report that lists which of some names a tick takes away. -/
structure Tells {α : Type} (part : TickOutcome → List α) (names : Graph C R → List α) : Prop where
  nodup : ∀ (g : Graph C R) (now : R) (order : SampleOrder C), g.WellFormed →
    (part (g.tickIn now order).2).Nodup
  mem_iff : ∀ (g : Graph C R) (now : R) (order : SampleOrder C) (id : α), g.WellFormed →
    (id ∈ part (g.tickIn now order).2 ↔ id ∈ names g ∧ id ∉ names (g.ticked now))
  subset : ∀ (g : Graph C R) (now : R), names (g.ticked now) ⊆ names g

omit [Scalar C] in
theorem tells_purged :
    Tells (C := C) (R := R) TickOutcome.purged connectionIds where
  nodup _ now order h := nodup_purged h.tickable now order
  mem_iff _ _ _ _ h := mem_purged_iff_gone h
  subset g now := by
    have hids := ((Thins.ticked g now).links_sublist.map Prod.fst).subset
    rwa [map_fst_links, map_fst_links] at hids

omit [Scalar C] in
theorem tells_removed : Tells (C := C) (R := R) TickOutcome.removed nodeIds where
  nodup g now order h := by
    rw [(tickIn_eq h.tickable now order).2]
    exact h.leaving_nodup.filter _
  mem_iff _ now order _ h := by
    rw [(tickIn_eq h.tickable now order).2]
    exact mem_released_iff_gone h
  subset _ _ := (List.filter_sublist.map Node.id).subset

/-- Several ticks report what they take away together, and nothing twice. -/
theorem Tells.reported {α : Type} {part : TickOutcome → List α} {names : Graph C R → List α}
    (h : Tells part names) (hwell : g.WellFormed) (ticks : List (R × SampleOrder C)) :
    (g.reported part ticks).Nodup ∧ names (g.tickAll ticks) ⊆ names g ∧
      ∀ id, id ∈ g.reported part ticks ↔ id ∈ names g ∧ id ∉ names (g.tickAll ticks) := by
  induction ticks generalizing g with
  | nil => exact ⟨List.nodup_nil, List.Subset.refl _, fun id ↦ by simp [Graph.reported, tickAll]⟩
  | cons tick rest ih =>
    obtain ⟨hnodup, hsubset, hmem⟩ := ih (hwell.ticked tick.1)
    have hfirst := h.mem_iff g tick.1 tick.2
    have hsub := h.subset g tick.1
    rw [Graph.reported, tickAll_cons hwell, (tickIn_eq hwell.tickable tick.1 tick.2).1]
    refine ⟨(h.nodup g tick.1 tick.2 hwell).append hnodup fun id hid hlater ↦ ?_,
      List.Subset.trans hsubset hsub, fun id ↦ ?_⟩
    · exact ((hfirst id hwell).mp hid).2 ((hmem id).mp hlater).1
    · rw [List.mem_append, hfirst id hwell, hmem id]
      have hback : id ∈ names ((g.ticked tick.1).tickAll rest) → id ∈ names (g.ticked tick.1) :=
        @hsubset id
      have hback' : id ∈ names (g.ticked tick.1) → id ∈ names g := @hsub id
      tauto

/-- Ticks that lead to one graph have reported the same. -/
theorem Tells.reported_perm {α : Type} {part : TickOutcome → List α} {names : Graph C R → List α}
    (h : Tells part names) (hwell : g.WellFormed) {ticks ticks' : List (R × SampleOrder C)}
    (hsame : g.tickAll ticks = g.tickAll ticks') :
    (g.reported part ticks).Perm (g.reported part ticks') := by
  obtain ⟨hnodup, -, hmem⟩ := h.reported hwell ticks
  obtain ⟨hnodup', -, hmem'⟩ := h.reported hwell ticks'
  exact (List.perm_ext_iff_of_nodup hnodup hnodup').mpr fun id ↦ by rw [hmem, hmem', hsame]

variable [Clock R] [Easing C R]

/-- Once all tweens have started, ticks in order come to the same as the last one of them. -/
theorem tickAll_concat [Passage R] (h : g.Phased config) (hwell : g.WellFormed)
    (hstarted : g.Started) {last : R × SampleOrder C} {frames : List (R × SampleOrder C)}
    (hfinite : ∀ frame ∈ frames ++ [last], Scalar.isFinite frame.1 = true)
    (hsorted : (frames ++ [last]).IsChain fun tick later ↦ tick.1 ≤ later.1) :
    g.tickAll (frames ++ [last]) = g.tickAll [last] := by
  induction frames with
  | nil => rfl
  | cons frame rest ih =>
    have hrest := ih (fun later hlater ↦ hfinite later (List.mem_cons_of_mem _ hlater))
      hsorted.tail
    obtain ⟨next, after, hnext⟩ := List.exists_cons_of_ne_nil <|
      List.append_ne_nil_of_right_ne_nil rest (List.cons_ne_nil last [])
    rw [List.cons_append, ← hrest]
    rw [List.cons_append] at hsorted hfinite
    rw [hnext] at hsorted hfinite ⊢
    have hframe : Scalar.isFinite frame.1 = true := hfinite frame List.mem_cons_self
    have hnextFinite : Scalar.isFinite next.1 = true :=
      hfinite next (List.mem_cons_of_mem _ List.mem_cons_self)
    have hle : frame.1 ≤ next.1 := (List.isChain_cons_cons.mp hsorted).1
    rw [tickAll_cons hwell, tickAll_cons (hwell.ticked frame.1), tickAll_cons hwell,
      h.ticked_ticked hwell hframe hnextFinite (hstarted.spans h hframe hnextFinite hle)]

/-- A tick that is repeated at once changes nothing and reports nothing. -/
theorem tickIn_again (h : g.Phased config) (hwell : g.WellFormed)
    (hnow : Scalar.isFinite now = true) (order order' : SampleOrder C) :
    ((g.tickIn now order).1.tickIn now order').1 = (g.tickIn now order).1 ∧
      ((g.tickIn now order).1.tickIn now order').2.purged = [] ∧
        ((g.tickIn now order).1.tickIn now order').2.removed = [] := by
  have hagain : (g.ticked now).ticked now = g.ticked now :=
    h.ticked_ticked hwell hnow hnow (g.spans_self now)
  have hwell' := hwell.ticked now
  rw [(tickIn_eq hwell.tickable now order).1]
  refine ⟨(tickIn_eq hwell'.tickable now order').1.trans hagain, ?_, ?_⟩
  · refine List.eq_nil_iff_forall_not_mem.mpr fun id hid ↦ ?_
    obtain ⟨hmem, hgone⟩ := (tells_purged.mem_iff _ now order' id hwell').mp hid
    exact hgone (hagain.symm ▸ hmem)
  · refine List.eq_nil_iff_forall_not_mem.mpr fun id hid ↦ ?_
    obtain ⟨hmem, hgone⟩ := (tells_removed.mem_iff _ now order' id hwell').mp hid
    exact hgone (hagain.symm ▸ hmem)

/-! ### Machine numbers -/

/-- With settings that pass their check and ticks at finite times so far, ticks at finite times in
order lead to the same graph as the first and the last of them, and the same connections are purged
and the same nodes removed on the way, each of them once. Two ticks at one time are as good as one.
-/
theorem frames_between_ticks {config : EditorConfig} (hconfig : config.validate = .ok ())
    (serial : Nat) {calls : List (Call Float32 Float)} (hcalls : ∀ call ∈ calls, call.IsTimely)
    {first last : Float × SampleOrder Float32} {between : List (Float × SampleOrder Float32)}
    (hfinite : ∀ tick ∈ first :: (between ++ [last]), Scalar.isFinite tick.1 = true)
    (hsorted : (first :: (between ++ [last])).IsChain fun tick later ↦ tick.1 ≤ later.1)
    (order order' : SampleOrder Float32) :
    let g := run config serial calls
    let all := first :: (between ++ [last])
    let two := [(first.1, order), (last.1, order')]
    g.tickAll all = g.tickAll two ∧
      (g.reported TickOutcome.purged all).Perm (g.reported TickOutcome.purged two) ∧
        (g.reported TickOutcome.removed all).Perm (g.reported TickOutcome.removed two) ∧
          ((g.tickIn first.1 first.2).1.tickIn first.1 order).1 = (g.tickIn first.1 first.2).1 ∧
            ((g.tickIn first.1 first.2).1.tickIn first.1 order).2.purged = [] ∧
              ((g.tickIn first.1 first.2).1.tickIn first.1 order).2.removed = [] := by
  intro g all two
  obtain ⟨hwell, hphased⟩ := phased_run hconfig serial calls hcalls
  have hfirst : Scalar.isFinite first.1 = true := hfinite first List.mem_cons_self
  have hwell' := hwell.ticked first.1
  have hsame : g.tickAll all = g.tickAll two := by
    calc g.tickAll all
        = (g.ticked first.1).tickAll (between ++ [last]) := tickAll_cons hwell first _
      _ = (g.ticked first.1).tickAll [last] :=
          tickAll_concat (hphased.ticked hwell hfirst) hwell' (hphased.started_ticked hwell hfirst)
            (fun tick htick ↦ hfinite tick (List.mem_cons_of_mem _ htick)) hsorted.tail
      _ = (g.ticked first.1).tickAll [(last.1, order')] := by
          rw [tickAll_cons hwell' last, tickAll_cons hwell' (last.1, order')]
      _ = g.tickAll two := (tickAll_cons hwell (first.1, order) _).symm
  exact ⟨hsame, tells_purged.reported_perm hwell hsame, tells_removed.reported_perm hwell hsame,
    tickIn_again hphased hwell hfirst first.2 order⟩

/-- Of four nodes in a row the second one is deleted while all three connections appear. Ticks at
150, 450, 500 and 650 milliseconds lead to the same graph as the first and the last of them, though
the node has gone in the second one. -/
theorem frames_between_ticks_early :
    ∃ (calls : List (Call Float32 Float)) (first second third last : Float × SampleOrder Float32),
      (EditorConfig.standard : EditorConfig).validate = .ok () ∧
        (∀ call ∈ calls, call.IsTimely) ∧
          (run .standard 1 calls).reported TickOutcome.removed [first, second] = [⟨"b"⟩] ∧
            (run .standard 1 calls).tickAll [first, second, third, last] =
              (run .standard 1 calls).tickAll [first, last] := by
  let layer : Layer := ⟨"Input", "", "", "", .empty, "", ""⟩
  let node (text : String) : Call Float32 Float := .insertNode ⟨⟨text⟩, layer, ⟨0, 0⟩, 140, 86⟩
  let connect (source target : String) : Call Float32 Float :=
    .addConnection ⟨source⟩ ⟨target⟩ ⟨0, 0⟩ ⟨0, 0⟩
  let calls : List (Call Float32 Float) :=
    [node "a", node "b", node "c", node "d", connect "a" "b", connect "b" "c", connect "c" "d",
      .tick 0 (.listed _), .deleteNode ⟨"b"⟩, .tick 100 (.listed _)]
  let tick (now : Float) : Float × SampleOrder Float32 := (now, .listed _)
  have hconfig : (EditorConfig.standard : EditorConfig).validate = .ok () := by decide +kernel
  have htimely : Scalar.isFinite (0 : Float) = true ∧ Scalar.isFinite (100 : Float) = true := by
    decide +kernel
  have hcalls : ∀ call ∈ calls, call.IsTimely := by
    simp [calls, node, connect, Call.IsTimely, htimely]
  have hfinite : ∀ frame ∈ tick 150 :: ([tick 450, tick 500] ++ [tick 650]),
      Scalar.isFinite frame.1 = true := by
    have htimes : Scalar.isFinite (150 : Float) = true ∧ Scalar.isFinite (450 : Float) = true ∧
        Scalar.isFinite (500 : Float) = true ∧ Scalar.isFinite (650 : Float) = true := by
      decide +kernel
    simpa [tick] using htimes
  have hsorted : (tick 150 :: ([tick 450, tick 500] ++ [tick 650])).IsChain
      fun tick later ↦ tick.1 ≤ later.1 := by
    have htimes : (150 : Float) ≤ 450 ∧ (450 : Float) ≤ 500 ∧ (500 : Float) ≤ 650 := by
      decide +kernel
    simpa [tick] using htimes
  have hremoved : (run .standard 1 calls).reported TickOutcome.removed [tick 150, tick 450] =
      [⟨"b"⟩] := by decide +kernel
  obtain ⟨hsame, -⟩ :=
    frames_between_ticks hconfig 1 hcalls hfinite hsorted (.listed _) (.listed _)
  exact ⟨calls, tick 150, tick 450, tick 500, tick 650, hconfig, hcalls, hremoved, hsame⟩

end Graph

end LayerCanvas
