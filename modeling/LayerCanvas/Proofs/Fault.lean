import Mathlib.Data.List.Induction
import Mathlib.Logic.Basic

/-!
Checking the items of a list one after the other. Whether an item is at fault may depend on the
items before it, and the check of the list ends with the fault of the first item that has one. A
loop that takes in item after item and stops at the first fault is such a check, provided that its
state is determined by the items that it has taken in.
-/

set_option autoImplicit false
set_option relaxedAutoImplicit false

namespace LayerCanvas

variable {α β ε : Type} {fault? : List α → α → Option ε}

/-- No item of a list is at fault, given the items before it. -/
def Faultless (fault? : List α → α → Option ε) (items : List α) : Prop :=
  ∀ before item after, items = before ++ item :: after → fault? before item = none

/-- The first item of a list that is at fault, given the items before it, has this fault. -/
def FirstFault (fault? : List α → α → Option ε) (items : List α) (fault : ε) : Prop :=
  ∃ before item after, items = before ++ item :: after ∧ Faultless fault? before ∧
    fault? before item = some fault

theorem faultless_nil : Faultless fault? [] := by
  intro before item after h
  simp at h

theorem faultless_concat_iff {items : List α} {item : α} :
    Faultless fault? (items ++ [item]) ↔ Faultless fault? items ∧ fault? items item = none := by
  constructor
  · intro h
    refine ⟨fun before other after hsplit ↦ ?_, h items item [] rfl⟩
    exact h before other (after ++ [item]) (by simp [hsplit])
  · rintro ⟨hitems, hitem⟩ before other after hsplit
    rcases List.eq_nil_or_concat after with rfl | ⟨rest, last, rfl⟩
    · obtain ⟨rfl, hsame⟩ := List.append_inj' hsplit rfl
      obtain rfl := List.singleton_inj.mp hsame
      exact hitem
    · refine hitems before other rest ?_
      have hconcat : items ++ [item] = (before ++ other :: rest) ++ [last] := by
        simpa using hsplit
      exact (List.append_inj' hconcat rfl).1

/-- A list without a first fault has none. -/
theorem faultless_or_firstFault (fault? : List α → α → Option ε) (items : List α) :
    Faultless fault? items ∨ ∃ fault, FirstFault fault? items fault := by
  induction items using List.reverseRecOn with
  | nil => exact Or.inl faultless_nil
  | append_singleton items item ih =>
    rcases ih with hitems | ⟨fault, before, first, after, rfl, hbefore, hfault⟩
    · cases hitem : fault? items item with
      | none => exact Or.inl (faultless_concat_iff.mpr ⟨hitems, hitem⟩)
      | some fault => exact Or.inr ⟨fault, items, item, [], rfl, hitems, hitem⟩
    · exact Or.inr ⟨fault, before, first, after ++ [item], by simp, hbefore, hfault⟩

/-! ### The loop -/

/-- A step takes in an item that is not at fault, given those taken in before, and stops at any
other with its fault. The state is determined by the items that were taken in. -/
def Checks (fault? : List α → α → Option ε) (state : List α → β) (f : β → α → Except ε β) : Prop :=
  ∀ before item, f (state before) item =
    (fault? before item).elim (.ok (state (before ++ [item]))) .error

namespace Checks

variable {state : List α → β} {f : β → α → Except ε β} {items : List α}

theorem foldlM_of_faultless (h : Checks fault? state f) (hitems : Faultless fault? items) :
    items.foldlM f (state []) = .ok (state items) := by
  induction items using List.reverseRecOn with
  | nil => rfl
  | append_singleton items item ih =>
    obtain ⟨hbefore, hitem⟩ := faultless_concat_iff.mp hitems
    have hlast : f (state items) item = .ok (state (items ++ [item])) := by rw [h, hitem]; rfl
    rw [List.foldlM_append, ih hbefore]
    change [item].foldlM f (state items) = _
    rw [List.foldlM_cons, hlast]
    rfl

theorem foldlM_of_firstFault (h : Checks fault? state f) {fault : ε}
    (hfault : FirstFault fault? items fault) : items.foldlM f (state []) = .error fault := by
  obtain ⟨before, item, after, rfl, hbefore, hitem⟩ := hfault
  have hstop : f (state before) item = .error fault := by rw [h, hitem]; rfl
  rw [List.foldlM_append, h.foldlM_of_faultless hbefore]
  change (item :: after).foldlM f (state before) = _
  rw [List.foldlM_cons, hstop]
  rfl

end Checks

end LayerCanvas
