import LayerCanvas.Proofs.Animator
import LayerCanvas.Proofs.Binary.Clock
import LayerCanvas.Proofs.Graph.Run

/-!
Runs of an animator. Animations are started and cancelled, and from time to time all of them are
sampled at once, at times that need not come in order. What the table holds of a connection depends
on the requests since its last start alone: nothing if one of them cancelled it or came when the
time was over, and otherwise a tween that began at the first time it was sampled. A sample says that
its tween has finished exactly if the tween is dropped with it. So a start leads to one such sample
at most, and nothing is reported of the connection after it before the next start.
-/

set_option autoImplicit false
set_option relaxedAutoImplicit false

namespace LayerCanvas.Animator

/-- What can be asked of an animator. The table has no order of its own, so an advance comes with
the order in which it goes through the samples. -/
inductive Request (C R : Type)
  | start (id : ConnectionId) (kind : TweenKind)
  | cancel (id : ConnectionId)
  | advance (now : R) (order : SampleOrder C)

variable {C R : Type}

namespace Request

/-- The time of an advance. -/
def time? : Request C R → Option R
  | .advance now _ => some now
  | _ => none

/-- Whether a request starts an animation of a connection. -/
def Starts (id : ConnectionId) : Request C R → Prop
  | .start other _ => other = id
  | _ => False

/-- Whether a request cancels the animation of a connection. -/
def Cancels (id : ConnectionId) : Request C R → Prop
  | .cancel other => other = id
  | _ => False

/-- Whether a request is made at a finite time, if it is made at one. -/
def IsTimely [Scalar R] (request : Request C R) : Prop :=
  ∀ now, request.time? = some now → Scalar.isFinite now = true

end Request

/-- The times of the advances among requests. -/
def times (requests : List (Request C R)) : List R := requests.filterMap Request.time?

section

variable [Scalar R]

/-- The animator after a request. -/
def apply (a : Animator R) : Request C R → Animator R
  | .start id kind => a.start id kind
  | .cancel id => a.cancel id
  | .advance now _ => a.advance now

/-- The animator after several requests. -/
def applyAll (a : Animator R) (requests : List (Request C R)) : Animator R :=
  requests.foldl apply a

/-- The animator of a run, with the lengths of the two kinds of animation. -/
def run (creationMs deletionMs : R) (requests : List (Request C R)) : Animator R :=
  applyAll { creationMs, deletionMs } requests

theorem applyAll_append (a : Animator R) (first second : List (Request C R)) :
    a.applyAll (first ++ second) = (a.applyAll first).applyAll second := List.foldl_append

theorem duration_apply (a : Animator R) (request : Request C R) :
    (a.apply request).duration = a.duration := by
  funext kind
  cases request <;> cases kind <;> rfl

theorem nodup_apply {a : Animator R} (h : a.ids.Nodup) (request : Request C R) :
    (a.apply request).ids.Nodup := by
  cases request with
  | start id kind => exact nodup_start h id kind
  | cancel id =>
    rw [apply, cancel_eq_keep, ids_keep]
    exact h.filter _
  | advance now order => exact nodup_advance h now

theorem nodup_applyAll {a : Animator R} (h : a.ids.Nodup) (requests : List (Request C R)) :
    (a.applyAll requests).ids.Nodup := by
  induction requests generalizing a with
  | nil => exact h
  | cons request requests ih => exact ih (nodup_apply h request)

/-! ### What is tracked -/

section

variable {a : Animator R} {id : ConnectionId}

/-- A start is the only way into the table. -/
theorem find?_apply_eq_none {request : Request C R} (hstart : ¬ request.Starts id)
    (h : a.find? id = none) (hnodup : a.ids.Nodup) : (a.apply request).find? id = none := by
  cases request with
  | start other kind =>
    rw [apply, find?_start, if_neg (Ne.symm hstart), h]
  | cancel other =>
    rw [apply, cancel_eq_keep, find?_keep, h, ite_self]
  | advance now order =>
    rw [apply, find?_advance hnodup, h]
    rfl

theorem find?_applyAll_eq_none {requests : List (Request C R)}
    (hstart : ∀ request ∈ requests, ¬ request.Starts id) (h : a.find? id = none)
    (hnodup : a.ids.Nodup) : (a.applyAll requests).find? id = none := by
  induction requests generalizing a with
  | nil => exact h
  | cons request requests ih =>
    obtain ⟨hfirst, hrest⟩ := List.forall_mem_cons.mp hstart
    exact ih hrest (find?_apply_eq_none hfirst h hnodup) (nodup_apply hnodup request)

/-- What has become of a start: a tween that no request since has cancelled, that began at the first
time at which it was sampled, and whose time was not over at any of them. -/
structure Underway (a : Animator R) (id : ConnectionId) (kind : TweenKind)
    (since : List (Request C R)) (t : Tween R) : Prop where
  tween_eq : t = ⟨kind, a.duration kind, (times since).head?⟩
  not_cancelled : ∀ request ∈ since, ¬ request.Cancels id
  isRunning : ∀ now ∈ times since, t.isRunning now = true

variable {kind : TweenKind} {since : List (Request C R)} {t : Tween R}

theorem underway_nil_iff : a.Underway id kind ([] : List (Request C R)) t ↔
    t = ⟨kind, a.duration kind, none⟩ :=
  ⟨fun h ↦ h.tween_eq, fun h ↦ ⟨h, nofun, nofun⟩⟩

/-- A request without a time that cancels nothing of the connection does not matter to it. -/
theorem underway_concat_iff {request : Request C R} (htime : request.time? = none)
    (hcancel : ¬ request.Cancels id) :
    a.Underway id kind (since ++ [request]) t ↔ a.Underway id kind since t := by
  have htimes : times (since ++ [request]) = times since := by
    simp [times, htime]
  constructor
  · rintro ⟨htween, hcancelled, hrunning⟩
    rw [htimes] at htween hrunning
    exact ⟨htween, fun r hr ↦ hcancelled r (List.mem_append_left _ hr), hrunning⟩
  · rintro ⟨htween, hcancelled, hrunning⟩
    exact ⟨htimes ▸ htween,
      List.forall_mem_append.mpr ⟨hcancelled, List.forall_mem_singleton.mpr hcancel⟩,
      htimes ▸ hrunning⟩

/-- An advance fixes the start of a tween that has none, and ends one whose time is over. -/
theorem underway_advance_iff {now : R} {order : SampleOrder C} :
    a.Underway id kind (since ++ [.advance now order]) t ↔
      ∃ t₀, a.Underway id kind since t₀ ∧ t₀.latch now = t ∧ t.isRunning now = true := by
  have htimes : times (since ++ [.advance now order]) = times since ++ [now] := by
    simp [times, Request.time?]
  have hlatch : (⟨kind, a.duration kind, (times since).head?⟩ : Tween R).latch now =
      ⟨kind, a.duration kind, (times since ++ [now]).head?⟩ := by
    rw [Tween.latch]
    cases times since <;> rfl
  -- A tween that has been sampled before keeps its start.
  have hsame : times since ≠ [] → (times since).head? = (times since ++ [now]).head? := by
    intro hne
    obtain ⟨first, rest, hfirst⟩ := List.exists_cons_of_ne_nil hne
    rw [hfirst]
    rfl
  constructor
  · rintro ⟨rfl, hcancelled, hrunning⟩
    rw [htimes] at hrunning ⊢
    refine ⟨_, ⟨rfl, fun r hr ↦ hcancelled r (List.mem_append_left _ hr), fun time htime ↦ ?_⟩,
      hlatch, hrunning now (by simp)⟩
    rw [hsame (List.ne_nil_of_mem htime)]
    exact hrunning time (List.mem_append_left _ htime)
  · rintro ⟨t₀, ⟨rfl, hcancelled, hrunning⟩, rfl, hnow⟩
    rw [hlatch] at hnow ⊢
    refine ⟨by rw [htimes], ?_, ?_⟩
    · exact List.forall_mem_append.mpr ⟨hcancelled, List.forall_mem_singleton.mpr not_false⟩
    · rw [htimes]
      refine List.forall_mem_append.mpr ⟨fun time htime ↦ ?_, List.forall_mem_singleton.mpr hnow⟩
      rw [← hsame (List.ne_nil_of_mem htime)]
      exact hrunning time htime

/-- The table holds what has become of the last start. -/
theorem find?_start_applyAll_iff (hnodup : a.ids.Nodup)
    (hstart : ∀ request ∈ since, ¬ request.Starts id) :
    ((a.start id kind).applyAll since).find? id = some t ↔ a.Underway id kind since t := by
  induction since using List.reverseRecOn generalizing t with
  | nil =>
    rw [underway_nil_iff]
    show (a.start id kind).find? id = some t ↔ _
    rw [find?_start, if_pos rfl, Option.some.injEq, eq_comm]
  | append_singleton since request ih =>
    obtain ⟨hbefore, hlast⟩ := List.forall_mem_append.mp hstart
    have hlast := hlast request List.mem_cons_self
    have hnodup' := nodup_applyAll (nodup_start hnodup id kind) since
    rw [applyAll_append]
    show ((((a.start id kind).applyAll since).apply request).find? id = some t) ↔ _
    -- No start is one of this tween. It may be cancelled, and an advance latches it or ends it.
    cases request with
    | start other otherKind =>
      have hcancel : ¬ (Request.start other otherKind : Request C R).Cancels id := not_false
      rw [underway_concat_iff rfl hcancel, ← ih hbefore, apply, find?_start,
        if_neg (Ne.symm hlast)]
    | cancel other =>
      rw [apply, cancel_eq_keep, find?_keep]
      by_cases hother : other = id
      · subst hother
        refine iff_of_false (by simp) fun h ↦ ?_
        exact h.not_cancelled (.cancel other) (by simp) rfl
      · rw [if_pos (by simpa using Ne.symm hother), ih hbefore,
          underway_concat_iff rfl (by exact hother)]
    | advance now order =>
      rw [underway_advance_iff, apply, find?_advance hnodup', Option.filter_eq_some_iff,
        Option.map_eq_some_iff]
      constructor
      · rintro ⟨⟨t₀, ht₀, rfl⟩, hrunning⟩
        exact ⟨t₀, (ih hbefore).mp ht₀, rfl, hrunning⟩
      · rintro ⟨t₀, ht₀, rfl, hrunning⟩
        exact ⟨⟨t₀, (ih hbefore).mpr ht₀, rfl⟩, hrunning⟩

end

/-! ### What is reported -/

/-- What holds of an animator whose times have all been finite. -/
structure Timed (a : Animator R) : Prop where
  nodup : a.ids.Nodup
  duration : ∀ kind, Scalar.isPositive (a.duration kind) = true
  tween : ∀ id t, a.find? id = some t → t.Timed

theorem Timed.apply {a : Animator R} (h : a.Timed) {request : Request C R}
    (hrequest : request.IsTimely) : (a.apply request).Timed := by
  refine ⟨nodup_apply h.nodup request, fun kind ↦ ?_, fun id t ht ↦ ?_⟩
  · rw [duration_apply]
    exact h.duration kind
  · cases request with
    | start other kind =>
      rw [Animator.apply, find?_start] at ht
      split_ifs at ht with hid
      · obtain rfl := Option.some.inj ht
        exact ⟨nofun, h.duration kind⟩
      · exact h.tween id t ht
    | cancel other =>
      rw [Animator.apply, cancel_eq_keep, find?_keep] at ht
      split_ifs at ht
      exact h.tween id t ht
    | advance now order =>
      rw [Animator.apply, find?_advance h.nodup, Option.filter_eq_some_iff] at ht
      obtain ⟨t₀, ht₀, rfl⟩ := Option.map_eq_some_iff.mp ht.1
      exact (h.tween id t₀ ht₀).latch (hrequest now rfl)

theorem Timed.applyAll {a : Animator R} (h : a.Timed) {requests : List (Request C R)}
    (hrequests : ∀ request ∈ requests, request.IsTimely) : (a.applyAll requests).Timed := by
  induction requests generalizing a with
  | nil => exact h
  | cons request requests ih =>
    obtain ⟨hfirst, hrest⟩ := List.forall_mem_cons.mp hrequests
    exact ih (h.apply hfirst) hrest

variable [Precision C R]

/-- What an animator reports on a request. -/
def report (a : Animator R) : Request C R → List (TweenSample C)
  | .advance now order => order.arrange (a.samples now)
  | _ => []

/-- What an animator reports on several requests, one report after the other. -/
def reports (a : Animator R) : List (Request C R) → List (TweenSample C)
  | [] => []
  | request :: rest => a.report request ++ (a.apply request).reports rest

/-- What the samples of an advance say: there is one for each tween, of its kind, and the finished
ones are those that are dropped. -/
structure Reported (a : Animator R) (now : R) (samples : List (TweenSample C)) : Prop where
  nodup : (samples.map TweenSample.id).Nodup
  mem_iff : ∀ id, id ∈ samples.map TweenSample.id ↔ ∃ t, a.find? id = some t
  kind_eq : ∀ s ∈ samples, ∀ t, a.find? s.id = some t → s.kind = t.kind
  finished_iff : ∀ s ∈ samples, s.finished = true ↔ (a.advance now).find? s.id = none

section

variable {a : Animator R} {id : ConnectionId}

theorem Timed.reported [Clock R] (h : a.Timed) {now : R} (hnow : Scalar.isFinite now = true)
    (order : SampleOrder C) : a.Reported now (a.report (.advance now order)) := by
  have hperm := order.perm (a.samples now)
  have hids := hperm.map (TweenSample.id (C := C))
  rw [ids_samples] at hids
  refine ⟨hids.nodup_iff.mpr h.nodup, fun id ↦ ?_, fun s hs t ht ↦ ?_, fun s hs ↦ ?_⟩
  · rw [report, hids.mem_iff, ← not_iff_not, ← find?_eq_none_iff, Option.eq_none_iff_forall_ne_some]
    simp
  · obtain ⟨t', ht', hs'⟩ := (mem_samples_iff h.nodup).mp (hperm.mem_iff.mp hs)
    obtain rfl := Option.some.inj (ht'.symm.trans ht)
    exact congrArg TweenSample.kind hs'
  · obtain ⟨t, ht, hs'⟩ := (mem_samples_iff h.nodup).mp (hperm.mem_iff.mp hs)
    have hfinished : s.finished = decide (1 ≤ t.fraction now) := congrArg TweenSample.finished hs'
    rw [hfinished, decide_eq_true_iff, Tween.one_le_fraction_iff (h.tween _ t ht) hnow,
      find?_advance h.nodup, ht, Option.map_some, Option.filter_some, Tween.isRunning_latch]
    cases t.isRunning now <;> simp

/-- Nothing is reported of a connection that is not in the table and is not started. -/
theorem notMem_reports (hnodup : a.ids.Nodup) (h : a.find? id = none)
    {requests : List (Request C R)} (hstart : ∀ request ∈ requests, ¬ request.Starts id) :
    ∀ s ∈ a.reports requests, s.id ≠ id := by
  induction requests generalizing a with
  | nil => exact nofun
  | cons request requests ih =>
    obtain ⟨hfirst, hrest⟩ := List.forall_mem_cons.mp hstart
    refine List.forall_mem_append.mpr ⟨fun s hs heq ↦ ?_,
      ih (nodup_apply hnodup request) (find?_apply_eq_none hfirst h hnodup) hrest⟩
    cases request with
    | start other kind => cases hs
    | cancel other => cases hs
    | advance now order =>
      have hmem := List.mem_map_of_mem (f := TweenSample.id) ((order.perm _).mem_iff.mp hs)
      rw [ids_samples, heq] at hmem
      exact find?_eq_none_iff.mp h hmem

/-- After a finished sample nothing is reported of its connection before the next start. -/
theorem Timed.pairwise_reports [Clock R] (h : a.Timed) {requests : List (Request C R)}
    (hrequests : ∀ request ∈ requests, request.IsTimely)
    (hstart : ∀ request ∈ requests, ¬ request.Starts id) :
    (a.reports requests).Pairwise fun s later ↦ s.id = id → s.finished = true → later.id ≠ id := by
  induction requests generalizing a with
  | nil => exact .nil
  | cons request requests ih =>
    obtain ⟨hfirst, hrest⟩ := List.forall_mem_cons.mp hrequests
    obtain ⟨-, hstart'⟩ := List.forall_mem_cons.mp hstart
    refine List.pairwise_append.mpr ⟨?_, ih (h.apply hfirst) hrest hstart', fun s hs ↦ ?_⟩
    · cases request with
      | start other kind => exact .nil
      | cancel other => exact .nil
      | advance now order =>
        have hnodup := (h.reported (hfirst now rfl) order).nodup
        refine (List.pairwise_map.mp hnodup).imp fun {s later} hne hs _ hlater ↦ ?_
        exact hne (hs.trans hlater.symm)
    · cases request with
      | start other kind => cases hs
      | cancel other => cases hs
      | advance now order =>
        intro later hlater hid hfinished
        have hgone := ((h.reported (hfirst now rfl) order).finished_iff s hs).mp hfinished
        rw [hid] at hgone
        exact notMem_reports (nodup_advance h.nodup now) hgone hstart' later hlater

/-- A start leads to one finished sample at most. -/
theorem Timed.finished_le_one [Clock R] (h : a.Timed) {requests : List (Request C R)}
    (hrequests : ∀ request ∈ requests, request.IsTimely)
    (hstart : ∀ request ∈ requests, ¬ request.Starts id) :
    ((a.reports requests).filter fun s ↦ s.id = id ∧ s.finished = true).length ≤ 1 := by
  have hpairwise := (h.pairwise_reports hrequests hstart).filter
    fun s ↦ decide (s.id = id ∧ s.finished = true)
  have hmem : ∀ s ∈ (a.reports requests).filter fun s ↦ decide (s.id = id ∧ s.finished = true),
      s.id = id ∧ s.finished = true := fun s hs ↦ of_decide_eq_true (List.mem_filter.mp hs).2
  generalize (a.reports requests).filter (fun s ↦ decide (s.id = id ∧ s.finished = true)) = done
    at hpairwise hmem ⊢
  match done with
  | [] => exact Nat.zero_le 1
  | [_] => exact le_rfl
  | s :: later :: rest =>
    obtain ⟨hid, hfinished⟩ := hmem s (by simp)
    obtain ⟨hsilent, -⟩ := List.pairwise_cons.mp hpairwise
    exact absurd (hmem later (by simp)).1 (hsilent later List.mem_cons_self hid hfinished)

end

end

/-! ### Machine numbers -/

/-- What a start leads to until the next one. -/
structure Follows (a : Animator) (id : ConnectionId) (kind : TweenKind)
    (since : List (Request Float32 Float)) : Prop where
  /-- The table holds what has become of the start. -/
  find?_iff : ∀ t, ((a.start id kind).applyAll since).find? id = some t ↔
    a.Underway id kind since t
  /-- One finished sample at most is reported. -/
  finished_le_one :
    (((a.start id kind).reports since).filter fun s ↦ s.id = id ∧ s.finished = true).length ≤ 1
  /-- After a finished sample nothing is reported of the connection. -/
  silent : ((a.start id kind).reports since).Pairwise fun s later ↦
    s.id = id → s.finished = true → later.id ≠ id

theorem timed_run {creationMs deletionMs : Float} (hcreation : Scalar.isPositive creationMs = true)
    (hdeletion : Scalar.isPositive deletionMs = true) {requests : List (Request Float32 Float)}
    (hrequests : ∀ request ∈ requests, request.IsTimely) :
    (run creationMs deletionMs requests).Timed := by
  have hempty : ({ creationMs, deletionMs } : Animator).Timed := by
    refine ⟨List.nodup_nil, fun kind ↦ ?_, fun id t ht ↦ by cases ht⟩
    cases kind with
    | creation => exact hcreation
    | deletion => exact hdeletion
  exact hempty.applyAll hrequests

/-- With animations of a finite and positive length that are sampled at finite times, in whatever
order, each advance reports every tween once, and reports as finished those that it drops. The table
holds of a connection what has become of its last start, of which one finished sample is reported
at most, and nothing after it. -/
theorem tween_finishes_once {creationMs deletionMs : Float}
    (hcreation : Scalar.isPositive creationMs = true)
    (hdeletion : Scalar.isPositive deletionMs = true) {requests : List (Request Float32 Float)}
    (hrequests : ∀ request ∈ requests, request.IsTimely) :
    (∀ (now : Float) (order : SampleOrder Float32), Scalar.isFinite now = true →
      (run creationMs deletionMs requests).Reported now
        ((run creationMs deletionMs requests).report (.advance now order))) ∧
      ∀ id, ((∀ request ∈ requests, ¬ request.Starts id) →
          (run creationMs deletionMs requests).find? id = none) ∧
        ∀ before kind since, requests = before ++ .start id kind :: since →
          (∀ request ∈ since, ¬ request.Starts id) →
            (run creationMs deletionMs before).Follows id kind since := by
  refine ⟨fun now order hnow ↦ (timed_run hcreation hdeletion hrequests).reported hnow order,
    fun id ↦ ⟨fun hstart ↦ find?_applyAll_eq_none hstart rfl .nil, ?_⟩⟩
  rintro before kind since rfl hstart
  obtain ⟨hbefore, hafter⟩ := List.forall_mem_append.mp hrequests
  obtain ⟨hfirst, hsince⟩ := List.forall_mem_cons.mp hafter
  have htimed := timed_run hcreation hdeletion hbefore
  have hstarted : ((run creationMs deletionMs before).start id kind).Timed := htimed.apply hfirst
  exact ⟨fun t ↦ find?_start_applyAll_iff htimed.nodup hstart,
    hstarted.finished_le_one hsince hstart, hstarted.pairwise_reports hsince hstart⟩

/-- A deletion that takes the place of a creation, on a clock that runs back once. -/
theorem tween_finishes_once_restarted :
    ∃ before since : List (Request Float32 Float),
      Scalar.isPositive (500 : Float) = true ∧ Scalar.isPositive (300 : Float) = true ∧
        (∀ request ∈ before ++ .start ⟨"a"⟩ .deletion :: since, request.IsTimely) ∧
        (∀ request ∈ since, ¬ request.Starts ⟨"a"⟩) ∧
        (run 500 300 before).Follows ⟨"a"⟩ .deletion since ∧
        (((run 500 300 before).start ⟨"a"⟩ .deletion).reports since).map TweenSample.finished =
          [false, false, true] := by
  let before : List (Request Float32 Float) :=
    [.start ⟨"a"⟩ .creation, .advance 0 (.listed _), .advance 250 (.listed _)]
  let since : List (Request Float32 Float) :=
    [.advance 1000 (.listed _), .advance 100 (.listed _), .advance 1300 (.listed _),
      .advance 1400 (.listed _)]
  have hlengths :
      Scalar.isPositive (500 : Float) = true ∧ Scalar.isPositive (300 : Float) = true := by
    decide +kernel
  have htimes : ∀ now ∈ times (before ++ .start ⟨"a"⟩ .deletion :: since),
      Scalar.isFinite now = true := by
    decide +kernel
  have htimely : ∀ request ∈ before ++ .start ⟨"a"⟩ .deletion :: since, request.IsTimely :=
    fun request hrequest now hnow ↦ htimes now (List.mem_filterMap.mpr ⟨request, hrequest, hnow⟩)
  have hstart : ∀ request ∈ since, ¬ request.Starts ⟨"a"⟩ := by
    simp [since, Request.Starts]
  obtain ⟨-, hfollows⟩ := tween_finishes_once hlengths.1 hlengths.2 htimely
  exact ⟨before, since, hlengths.1, hlengths.2, htimely, hstart,
    (hfollows ⟨"a"⟩).2 before .deletion since rfl hstart, by decide +kernel⟩

end LayerCanvas.Animator
