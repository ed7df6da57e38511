import LayerCanvas.Animator
import Mathlib.Data.List.Nodup

/-!
The table of tweens as a finite map. A connection has at most one tween: starting one replaces what
was there, cancelling takes it out, and going through the table samples every tween once and keeps
those that are still running.
-/

set_option autoImplicit false
set_option relaxedAutoImplicit false

namespace LayerCanvas.Animator

variable {C R : Type}

/-- The connections that have a tween. -/
def ids (a : Animator R) : List ConnectionId := a.tweens.map Prod.fst

theorem mem_ids_put {id other : ConnectionId} {t : Tween R}
    {tweens : List (ConnectionId × Tween R)} :
    other ∈ (put id t tweens).map Prod.fst ↔ other = id ∨ other ∈ tweens.map Prod.fst := by
  induction tweens with
  | nil => simp [put]
  | cons entry rest ih =>
    unfold put
    split_ifs with h
    · subst h
      simp
    · rw [List.map_cons, List.mem_cons, ih, List.map_cons, List.mem_cons]
      tauto

theorem nodup_put {tweens : List (ConnectionId × Tween R)} (h : (tweens.map Prod.fst).Nodup)
    (id : ConnectionId) (t : Tween R) : ((put id t tweens).map Prod.fst).Nodup := by
  induction tweens with
  | nil => simp [put]
  | cons entry rest ih =>
    have ⟨hentry, hrest⟩ := List.nodup_cons.mp h
    unfold put
    split_ifs with heq
    · subst heq
      exact h
    · refine List.nodup_cons.mpr ⟨fun hmem ↦ ?_, ih hrest⟩
      rcases mem_ids_put.mp hmem with hnew | hold
      · exact heq hnew
      · exact hentry hold

theorem lookup_put (id other : ConnectionId) (t : Tween R)
    (tweens : List (ConnectionId × Tween R)) :
    (put id t tweens).lookup other = if other = id then some t else tweens.lookup other := by
  induction tweens with
  | nil => by_cases h : other = id <;> simp [put, h]
  | cons entry rest ih =>
    obtain ⟨key, old⟩ := entry
    by_cases hother : other = key
    · subst hother
      by_cases hkey : other = id <;> simp [put, hkey]
    · have hne : (other == key) = false := beq_eq_false_iff_ne.mpr hother
      by_cases hkey : key = id
      · subst hkey
        simp [put, List.lookup_cons, hne, hother]
      · simp [put, hkey, List.lookup_cons, hne, ih]

/-! ### Starting and cancelling -/

@[simp] theorem mem_ids_start {a : Animator R} {id other : ConnectionId} {kind : TweenKind} :
    other ∈ (a.start id kind).ids ↔ other = id ∨ other ∈ a.ids :=
  mem_ids_put

theorem nodup_start {a : Animator R} (h : a.ids.Nodup) (id : ConnectionId) (kind : TweenKind) :
    (a.start id kind).ids.Nodup :=
  nodup_put h id _

theorem find?_start (a : Animator R) (id other : ConnectionId) (kind : TweenKind) :
    (a.start id kind).find? other =
      if other = id then some ⟨kind, a.duration kind, none⟩ else a.find? other :=
  lookup_put id other _ a.tweens

/-- The animator with the tweens of some connections only. -/
def keep (a : Animator R) (p : ConnectionId → Bool) : Animator R :=
  { a with tweens := a.tweens.filter fun entry ↦ p entry.1 }

theorem cancel_eq_keep (a : Animator R) (id : ConnectionId) : a.cancel id = a.keep (· != id) := rfl

theorem keep_keep (a : Animator R) (p q : ConnectionId → Bool) :
    (a.keep p).keep q = a.keep fun id ↦ p id && q id := by
  simp [keep, List.filter_filter, Bool.and_comm]

theorem keep_congr {a : Animator R} {p q : ConnectionId → Bool} (h : ∀ id ∈ a.ids, p id = q id) :
    a.keep p = a.keep q := by
  unfold keep
  congr 1
  exact List.filter_congr fun entry hentry ↦ h entry.1 (List.mem_map_of_mem hentry)

theorem keep_true (a : Animator R) : a.keep (fun _ ↦ true) = a := by
  simp [keep]

theorem ids_keep (a : Animator R) (p : ConnectionId → Bool) : (a.keep p).ids = a.ids.filter p := by
  simp only [ids, keep, List.filter_map]
  rfl

theorem find?_keep (a : Animator R) (p : ConnectionId → Bool) (id : ConnectionId) :
    (a.keep p).find? id = if p id then a.find? id else none := by
  unfold find? keep
  induction a.tweens with
  | nil => simp
  | cons entry rest ih =>
    obtain ⟨key, t⟩ := entry
    by_cases hid : id = key
    · subst hid
      by_cases hp : p id
      · simp [hp]
      · simpa [hp] using ih
    · have hne : (id == key) = false := beq_eq_false_iff_ne.mpr hid
      by_cases hp : p key
      · simp only [List.filter_cons, hp, if_true, List.lookup_cons, hne, ih]
      · simp only [List.filter_cons, hp, List.lookup_cons, hne, ← ih]
        rfl

/-! ### Looking up -/

theorem find?_eq_none_iff {a : Animator R} {id : ConnectionId} :
    a.find? id = none ↔ id ∉ a.ids := by
  simp only [find?, ids, List.lookup_eq_none_iff, List.mem_map, not_exists, not_and]
  grind

theorem mem_tweens_of_find? {a : Animator R} {id : ConnectionId} {t : Tween R}
    (h : a.find? id = some t) : (id, t) ∈ a.tweens := by
  obtain ⟨before, after, hsplit, -⟩ := List.lookup_eq_some_iff.mp h
  rw [hsplit]
  simp

theorem find?_eq_some_iff {a : Animator R} (h : a.ids.Nodup) {id : ConnectionId} {t : Tween R} :
    a.find? id = some t ↔ (id, t) ∈ a.tweens := by
  refine ⟨mem_tweens_of_find?, fun hmem ↦ ?_⟩
  have hid : id ∈ a.ids := List.mem_map.mpr ⟨_, hmem, rfl⟩
  obtain ⟨t', ht'⟩ := Option.ne_none_iff_exists'.mp (mt find?_eq_none_iff.mp (not_not.mpr hid))
  have heq := List.inj_on_of_nodup_map h (mem_tweens_of_find? ht') hmem rfl
  rw [ht', (Prod.mk.inj heq).2]

/-! ### Going through the table -/

variable [Scalar R]

theorem ids_samples [Precision C R] (a : Animator R) (now : R) :
    (a.samples now).map (TweenSample.id (C := C)) = a.ids := by
  simp [samples, ids, Tween.sample, Function.comp_def]

theorem mem_samples_iff [Precision C R] {a : Animator R} (h : a.ids.Nodup) {now : R}
    {s : TweenSample C} :
    s ∈ a.samples now ↔ ∃ t, a.find? s.id = some t ∧ s = (t.latch now).sample s.id now := by
  simp only [samples, List.mem_map, find?_eq_some_iff h]
  constructor
  · rintro ⟨⟨id, t⟩, hmem, rfl⟩
    exact ⟨t, hmem, rfl⟩
  · rintro ⟨t, hmem, hs⟩
    exact ⟨(s.id, t), hmem, hs.symm⟩

theorem ids_advance_sublist (a : Animator R) (now : R) : (a.advance now).ids.Sublist a.ids := by
  have h := (List.filter_sublist (p := fun entry : ConnectionId × Tween R ↦ entry.2.isRunning now)
    (l := a.tweens.map fun entry ↦ (entry.1, entry.2.latch now))).map Prod.fst
  simpa [ids, advance, Function.comp_def] using h

theorem nodup_advance {a : Animator R} (h : a.ids.Nodup) (now : R) : (a.advance now).ids.Nodup :=
  h.sublist (a.ids_advance_sublist now)

/-- Going through the table keeps a tween, started, as long as it is running. -/
theorem find?_advance {a : Animator R} (h : a.ids.Nodup) (now : R) (id : ConnectionId) :
    (a.advance now).find? id =
      ((a.find? id).map fun t ↦ t.latch now).filter fun t ↦ t.isRunning now := by
  ext t
  rw [find?_eq_some_iff (nodup_advance h now), Option.filter_eq_some_iff, Option.map_eq_some_iff]
  simp only [advance, List.mem_filter, List.mem_map, find?_eq_some_iff h, Prod.mk.injEq]
  constructor
  · rintro ⟨⟨⟨key, old⟩, hmem, rfl, rfl⟩, hrun⟩
    exact ⟨⟨old, hmem, rfl⟩, hrun⟩
  · rintro ⟨⟨old, hmem, rfl⟩, hrun⟩
    exact ⟨⟨(id, old), hmem, rfl, rfl⟩, hrun⟩

end LayerCanvas.Animator
