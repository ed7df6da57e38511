import LayerCanvas.Id
import Mathlib.Data.List.Nodup

/-!
Fresh names are fresh. Different serials of one stem give different names, so among one more serials
than there are names in use one must be free, and the search for a fresh name never runs out. Which
name it finds depends on the set of names in use and on their number, not on their order.
-/

set_option autoImplicit false
set_option relaxedAutoImplicit false

namespace LayerCanvas

namespace Serial

theorem name_injective (stem : String) : Function.Injective (name stem) := by
  intro i j h
  have hdigits : Nat.toDigits 10 i = Nat.toDigits 10 j := by
    simpa [name, Nat.toString_eq_repr] using congrArg String.toList h
  have hvalue := congrArg (fun digits ↦ Nat.ofDigitChars 10 digits 0) hdigits
  simpa using hvalue

/-- The search stops at a free name, or every serial it looked at was in use. -/
theorem firstFree_free_or_taken (stem : String) (taken : List String) (tries serial : Nat) :
    name stem (firstFree stem taken tries serial) ∉ taken ∨
      ∀ k ≤ tries, name stem (serial + k) ∈ taken := by
  induction tries generalizing serial with
  | zero =>
    by_cases h : name stem serial ∈ taken
    · right
      intro k hk
      rw [Nat.le_zero.mp hk]
      exact h
    · exact Or.inl h
  | succ tries ih =>
    rw [firstFree]
    split_ifs with h
    · refine (ih (serial + 1)).imp_right fun hall k hk ↦ ?_
      cases k with
      | zero => exact h
      | succ k =>
        rw [show serial + (k + 1) = serial + 1 + k by omega]
        exact hall k (by omega)
    · exact Or.inl h

theorem fresh_notMem (stem : String) (taken : List String) (serial : Nat) :
    name stem (fresh stem taken serial) ∉ taken := by
  refine (firstFree_free_or_taken stem taken taken.length serial).resolve_right fun hall ↦ ?_
  -- One more different names than there are in use cannot all be in use.
  let names := (List.range (taken.length + 1)).map fun k ↦ name stem (serial + k)
  have hnodup : names.Nodup :=
    List.nodup_range.map fun i j h ↦ Nat.add_left_cancel (name_injective stem h)
  have hsubset : names ⊆ taken := by
    intro text htext
    obtain ⟨k, hk, rfl⟩ := List.mem_map.mp htext
    exact hall k (Nat.le_of_lt_succ (List.mem_range.mp hk))
  have hlength := hnodup.length_le_of_subset hsubset
  simp only [names, List.length_map, List.length_range] at hlength
  omega

theorem firstFree_congr {stem : String} {taken taken' : List String}
    (h : ∀ text, text ∈ taken ↔ text ∈ taken') (tries serial : Nat) :
    firstFree stem taken tries serial = firstFree stem taken' tries serial := by
  induction tries generalizing serial with
  | zero => rfl
  | succ tries ih => simp only [firstFree, h, ih]

theorem fresh_perm {taken taken' : List String} (h : taken.Perm taken') (stem : String)
    (serial : Nat) : fresh stem taken serial = fresh stem taken' serial := by
  rw [fresh, fresh, h.length_eq]
  exact firstFree_congr (fun _ ↦ h.mem_iff) _ _

end Serial

theorem NodeId.mint_notMem (layerType : String) (taken : List NodeId) (serial : Nat) :
    (mint layerType taken serial).1 ∉ taken := by
  intro h
  exact Serial.fresh_notMem layerType (taken.map text) serial (List.mem_map_of_mem (f := text) h)

theorem NodeId.mint_perm {taken taken' : List NodeId} (h : taken.Perm taken') (layerType : String)
    (serial : Nat) : mint layerType taken serial = mint layerType taken' serial := by
  rw [mint, mint, Serial.fresh_perm (h.map text)]

theorem ConnectionId.mint_notMem (taken : List ConnectionId) (serial : Nat) :
    (mint taken serial).1 ∉ taken := by
  intro h
  exact Serial.fresh_notMem stem (taken.map text) serial (List.mem_map_of_mem (f := text) h)

theorem ConnectionId.mint_perm {taken taken' : List ConnectionId} (h : taken.Perm taken')
    (serial : Nat) : mint taken serial = mint taken' serial := by
  rw [mint, mint, Serial.fresh_perm (h.map text)]

end LayerCanvas
