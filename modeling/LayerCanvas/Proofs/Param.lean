import LayerCanvas.Param.Basic
import Mathlib.Tactic.SplitIfs

/-!
Parameters under edits. Giving a parameter a value changes what is found under its name alone. If
the parameter is there and the new value is of its kind, the names and the kinds stay as they are,
and so does their order.
-/

set_option autoImplicit false
set_option relaxedAutoImplicit false

namespace LayerCanvas.Params

variable {R : Type}

/-- The names of the parameters with their kinds, in the order of the names. -/
def kinds (ps : Params R) : List (String × ParamKind) :=
  ps.entries.map fun entry ↦ (entry.1, entry.2.kind)

theorem lookup_insertEntry (name other : String) (value : ParamValue R)
    (entries : List (String × ParamValue R)) :
    (insertEntry name value entries).lookup other =
      if other = name then some value else entries.lookup other := by
  induction entries with
  | nil =>
    rw [insertEntry, List.lookup_cons]
    split_ifs with hother
    · rw [beq_iff_eq.mpr hother]
    · rw [beq_eq_false_iff_ne.mpr hother]
  | cons entry rest ih =>
    by_cases hother : other = name
    · rw [if_pos hother] at ih ⊢
      unfold insertEntry
      split_ifs with hlt hsame
      · rw [List.lookup_cons, beq_iff_eq.mpr hother]
      · rw [List.lookup_cons, beq_iff_eq.mpr hother]
      · rw [List.lookup_cons, beq_eq_false_iff_ne.mpr (hother ▸ hsame), ih]
    · rw [if_neg hother] at ih ⊢
      unfold insertEntry
      split_ifs with hlt hsame
      · rw [List.lookup_cons, beq_eq_false_iff_ne.mpr hother]
      · rw [List.lookup_cons, List.lookup_cons, beq_eq_false_iff_ne.mpr hother,
          beq_eq_false_iff_ne.mpr (hsame ▸ hother)]
      · rw [List.lookup_cons, List.lookup_cons, ih]

/-- A new value is found under its name, and under all other names what was found before. -/
theorem find?_insert (ps : Params R) (name other : String) (value : ParamValue R) :
    (ps.insert name value).find? other = if other = name then some value else ps.find? other :=
  lookup_insertEntry name other value ps.entries

theorem kinds_insertEntry {name : String} {value old : ParamValue R}
    {entries : List (String × ParamValue R)} (hsorted : entries.Pairwise fun a b ↦ a.1 < b.1)
    (hold : entries.lookup name = some old) (hkind : old.kind = value.kind) :
    (insertEntry name value entries).map (fun entry ↦ (entry.1, entry.2.kind)) =
      entries.map fun entry ↦ (entry.1, entry.2.kind) := by
  induction entries with
  | nil => cases hold
  | cons entry rest ih =>
    obtain ⟨hhead, hrest⟩ := List.pairwise_cons.mp hsorted
    unfold insertEntry
    split_ifs with hlt hsame
    · -- The names increase, so one that comes before the first is not there.
      have hbefore : ∀ other ∈ entry :: rest, name ≠ other.1 := by
        intro other hother heq
        rcases List.mem_cons.mp hother with rfl | hother
        · exact String.lt_irrefl _ (heq ▸ hlt)
        · exact String.lt_irrefl _ (heq ▸ String.lt_trans hlt (hhead other hother))
      have hnone : (entry :: rest).lookup name = none := by
        refine List.lookup_eq_none_iff.mpr fun other hother ↦ ?_
        simpa using hbefore other hother
      rw [hnone] at hold
      cases hold
    · rw [List.lookup_cons, beq_iff_eq.mpr hsame, Option.some.injEq] at hold
      simp [hsame, hold, hkind]
    · have hne : (name == entry.1) = false := by simpa using hsame
      rw [List.lookup_cons, hne] at hold
      rw [List.map_cons, List.map_cons, ih hrest hold]

/-- Names and kinds are kept when a parameter gets a value of its own kind. -/
theorem kinds_insert {ps : Params R} {name : String} {value old : ParamValue R}
    (hold : ps.find? name = some old) (hkind : old.kind = value.kind) :
    (ps.insert name value).kinds = ps.kinds :=
  kinds_insertEntry ps.sorted hold hkind

end LayerCanvas.Params
