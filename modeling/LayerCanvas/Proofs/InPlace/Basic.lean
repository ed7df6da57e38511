import Mathlib.Control.Monad.Basic

/-!
Routines that work in place. A routine reads a state and changes it as it goes, and it may give up
half way: what it has changed by then stays changed. It is atomic if it has changed nothing whenever
it gives up.

Two kinds of routines are atomic for simple reasons: one that only looks changes nothing at all, and
one that completes never gives up. In this order they can be put together: a look may stand before
anything atomic, and a completion after it. This is the order of checks and changes that makes a
routine safe to refuse.
-/

set_option autoImplicit false
set_option relaxedAutoImplicit false

namespace LayerCanvas

/-- A routine that works on a state in place, and may give up. -/
abbrev InPlace (σ ε α : Type) := ExceptT ε (StateM σ) α

/-- A part of a state that can be replaced on its own. -/
structure Part (τ σ : Type) where
  get : τ → σ
  put : σ → τ → τ
  put_get : ∀ t, put (get t) t = t

namespace InPlace

variable {σ τ ε α β : Type}

/-- What a routine reports, and the state that it leaves. -/
def outcome (x : InPlace σ ε α) (s : σ) : Except ε α × σ := x.run s

/-- What is seen of a routine when the state is thrown away after a refusal. -/
def result (x : InPlace σ ε α) (s : σ) : Except ε (α × σ) :=
  match x.outcome s with
  | (.error e, _) => .error e
  | (.ok a, t) => .ok (a, t)

/-- Gives up if something is the case. -/
def refuseIf (refused : Bool) (e : ε) : InPlace σ ε Unit := if refused then throw e else pure ()

/-- Gives up unless there is something to go on with. -/
def demand (found : Option α) (e : ε) : InPlace σ ε α :=
  match found with
  | none => throw e
  | some a => pure a

/-- Runs a routine and goes on whether or not it gives up, with the state that it leaves. -/
def ignore (x : InPlace σ ε α) : InPlace σ ε Unit := fun s ↦ (.ok (), (x.outcome s).2)

/-- Runs a routine on a state of its own, which is thrown away when the routine gives up. -/
def apart (x : InPlace σ ε α) (s : σ) : InPlace τ ε σ :=
  match x.result s with
  | .error e => throw e
  | .ok (_, s) => pure s

/-- Runs a routine on a part of the state. -/
def within (part : Part τ σ) (x : InPlace σ ε α) : InPlace τ ε α :=
  fun t ↦ ((x.outcome (part.get t)).1, part.put (x.outcome (part.get t)).2 t)

/-! ### Outcomes -/

theorem outcome_bind (x : InPlace σ ε α) (f : α → InPlace σ ε β) (s : σ) :
    (x >>= f).outcome s =
      match x.outcome s with
      | (.error e, t) => (.error e, t)
      | (.ok a, t) => (f a).outcome t := by
  change ExceptT.bindCont f (x.outcome s).1 (x.outcome s).2 = _
  rcases x.outcome s with ⟨_ | _, t⟩ <;> rfl

theorem outcome_ignore (x : InPlace σ ε α) (s : σ) :
    (ignore x).outcome s = (.ok (), (x.outcome s).2) := rfl

theorem outcome_within (part : Part τ σ) (x : InPlace σ ε α) (t : τ) :
    (within part x).outcome t =
      ((x.outcome (part.get t)).1, part.put (x.outcome (part.get t)).2 t) := rfl

/-! ### Routines that only look, that complete, and that are atomic -/

/-- The state is only looked at. -/
def Looks (x : InPlace σ ε α) : Prop := ∀ s, (x.outcome s).2 = s

/-- The routine never gives up. -/
def Completes (x : InPlace σ ε α) : Prop := ∀ s, ∃ a, (x.outcome s).1 = .ok a

/-- The routine has changed nothing when it gives up. -/
def Atomic (x : InPlace σ ε α) : Prop := ∀ s e, (x.outcome s).1 = .error e → (x.outcome s).2 = s

variable {x : InPlace σ ε α} {f : α → InPlace σ ε β}

theorem Completes.atomic (h : x.Completes) : x.Atomic := by
  intro s e he
  obtain ⟨a, ha⟩ := h s
  rw [ha] at he
  cases he

theorem looks_get : Looks (get : InPlace σ ε σ) := fun _ ↦ rfl

theorem looks_refuseIf (refused : Bool) (e : ε) :
    Looks (refuseIf refused e : InPlace σ ε Unit) := by
  cases refused <;> exact fun _ ↦ rfl

theorem looks_demand (found : Option α) (e : ε) : Looks (demand found e : InPlace σ ε α) := by
  cases found <;> exact fun _ ↦ rfl

theorem looks_apart (x : InPlace σ ε α) (s : σ) : Looks (apart x s : InPlace τ ε σ) := by
  unfold apart
  split <;> exact fun _ ↦ rfl

theorem completes_pure (a : α) : Completes (pure a : InPlace σ ε α) := fun _ ↦ ⟨a, rfl⟩

theorem completes_get : Completes (get : InPlace σ ε σ) := fun s ↦ ⟨s, rfl⟩

theorem completes_modify (g : σ → σ) : Completes (modify g : InPlace σ ε PUnit) :=
  fun _ ↦ ⟨⟨⟩, rfl⟩

theorem completes_ignore (x : InPlace σ ε α) : Completes (ignore x) :=
  fun s ↦ ⟨(), by rw [outcome_ignore]⟩

theorem Completes.bind (hx : x.Completes) (hf : ∀ a, (f a).Completes) : (x >>= f).Completes := by
  intro s
  obtain ⟨a, ha⟩ := hx s
  have houtcome : x.outcome s = (.ok a, (x.outcome s).2) := Prod.ext ha rfl
  rw [outcome_bind, houtcome]
  exact hf a _

theorem completes_forM (xs : List α) {f : α → InPlace σ ε PUnit} (h : ∀ a, (f a).Completes) :
    Completes (xs.forM f) := by
  induction xs with
  | nil => exact completes_pure _
  | cons a xs ih => exact (h a).bind fun _ ↦ ih

/-- A look may stand before anything atomic. -/
theorem Looks.bind_atomic (hx : x.Looks) (hf : ∀ a, (f a).Atomic) : (x >>= f).Atomic := by
  intro s e he
  have hs := hx s
  rw [outcome_bind] at he ⊢
  rcases houtcome : x.outcome s with ⟨e' | a, t⟩
  · rw [houtcome] at hs
    exact hs
  · rw [houtcome] at hs he
    obtain rfl : t = s := hs
    exact hf a t e he

/-- A completion may stand after anything atomic. -/
theorem Atomic.bind_completes (hx : x.Atomic) (hf : ∀ a, (f a).Completes) :
    (x >>= f).Atomic := by
  intro s e he
  rw [outcome_bind] at he ⊢
  rcases houtcome : x.outcome s with ⟨e' | a, t⟩
  · have ht := hx s e' (by rw [houtcome])
    rw [houtcome] at ht
    exact ht
  · rw [houtcome] at he
    obtain ⟨b, hb⟩ := hf a t
    rw [hb] at he
    cases he

theorem Atomic.within (part : Part τ σ) (hx : x.Atomic) : (within part x).Atomic := by
  intro t e he
  rw [outcome_within] at he ⊢
  have hkept := hx _ e he
  rw [hkept]
  exact part.put_get t

theorem Completes.within (part : Part τ σ) (hx : x.Completes) : (within part x).Completes :=
  fun t ↦ hx (part.get t)

/-! ### Results, step by step -/

theorem result_bind (x : InPlace σ ε α) (f : α → InPlace σ ε β) (s : σ) :
    (x >>= f).result s = (x.result s).bind fun seen ↦ (f seen.1).result seen.2 := by
  rw [result, outcome_bind, result]
  rcases x.outcome s with ⟨_ | _, t⟩ <;> rfl

@[simp] theorem result_pure (a : α) (s : σ) : result (pure a : InPlace σ ε α) s = .ok (a, s) := rfl

@[simp] theorem result_modify (g : σ → σ) (s : σ) :
    result (modify g : InPlace σ ε PUnit) s = .ok (⟨⟩, g s) := rfl

@[simp] theorem result_get_bind (f : σ → InPlace σ ε β) (s : σ) :
    (get >>= f).result s = (f s).result s := by
  rw [result_bind]
  rfl

@[simp] theorem result_modify_bind (g : σ → σ) (f : PUnit → InPlace σ ε β) (s : σ) :
    (modify g >>= f).result s = (f ⟨⟩).result (g s) := by
  rw [result_bind]
  rfl

@[simp] theorem result_refuseIf_bind (refused : Bool) (e : ε) (f : Unit → InPlace σ ε β) (s : σ) :
    (refuseIf refused e >>= f).result s = if refused then .error e else (f ()).result s := by
  cases refused <;> rfl

@[simp] theorem result_demand_bind (found : Option α) (e : ε) (f : α → InPlace σ ε β) (s : σ) :
    (demand found e >>= f).result s = found.elim (.error e) fun a ↦ (f a).result s := by
  cases found <;> rfl

@[simp] theorem result_apart (x : InPlace σ ε α) (s : σ) (t : τ) :
    result (apart x s) t = (x.result s).map fun seen ↦ (seen.2, t) := by
  unfold apart
  cases x.result s <;> rfl

@[simp] theorem result_within (part : Part τ σ) (x : InPlace σ ε α) (t : τ) :
    (within part x).result t =
      (x.result (part.get t)).map fun seen ↦ (seen.1, part.put seen.2 t) := by
  rw [result, outcome_within, result]
  rcases x.outcome (part.get t) with ⟨_ | _, s⟩ <;> rfl

/-- A loop that stops at the first fault. -/
theorem result_forM {δ : Type} {fault : δ → ε} {step : σ → α → Except δ σ}
    {f : α → InPlace σ ε PUnit}
    (h : ∀ a s, (f a).result s = ((step s a).mapError fault).map fun t ↦ (⟨⟩, t))
    (xs : List α) (s : σ) :
    (xs.forM f).result s = ((xs.foldlM step s).mapError fault).map fun t ↦ (⟨⟩, t) := by
  induction xs generalizing s with
  | nil => rfl
  | cons a xs ih =>
    have hcons : (a :: xs).forM f = f a >>= fun _ ↦ xs.forM f := rfl
    rw [hcons, result_bind, h, List.foldlM_cons]
    cases step s a with
    | error e => rfl
    | ok t => exact ih t

/-- A loop that goes on to its end. -/
theorem result_forM_ok {step : σ → α → σ} {f : α → InPlace σ ε PUnit}
    (h : ∀ a s, (f a).result s = .ok (⟨⟩, step s a)) (xs : List α) (s : σ) :
    (xs.forM f).result s = .ok (⟨⟩, xs.foldl step s) := by
  induction xs generalizing s with
  | nil => rfl
  | cons a xs ih =>
    have hcons : (a :: xs).forM f = f a >>= fun _ ↦ xs.forM f := rfl
    rw [hcons, result_bind, h]
    exact ih (step s a)

/-- The result of an atomic routine is all there is to know of it. -/
theorem Atomic.outcome_eq (h : x.Atomic) (s : σ) :
    x.outcome s =
      match x.result s with
      | .error e => (.error e, s)
      | .ok (a, t) => (.ok a, t) := by
  unfold result
  rcases houtcome : x.outcome s with ⟨e | a, t⟩
  · have ht := h s e (by rw [houtcome])
    rw [houtcome] at ht
    obtain rfl : t = s := ht
    rfl
  · rfl

/-- Ignoring the refusal of an atomic routine. -/
theorem Atomic.result_ignore (h : x.Atomic) (s : σ) :
    (ignore x).result s = .ok ((), (x.result s).toOption.elim s Prod.snd) := by
  rw [result, outcome_ignore, h.outcome_eq]
  cases x.result s <;> rfl

end InPlace

end LayerCanvas
