import LayerCanvas.Json.Record
import LayerCanvas.Proofs.Json.RoundTrip
import Mathlib.Data.List.Nodup

/-!
What is made from texts, numbers and members can be read. A record that is written with the names of
its fields in their order, each at most once, is read as the same list of fields, and a field is
found by its name wherever it stands.
-/

set_option autoImplicit false
set_option relaxedAutoImplicit false

namespace LayerCanvas

namespace Json

theorem wellFormed_ofString (s : String) : (ofString s).WellFormed := .text _

theorem wellFormed_ofFloat (x : Float) : (ofFloat x).WellFormed := by
  rw [ofFloat]
  cases h : Decimal.ofFloat? x with
  | none => exact .null
  | some n => exact .number (Decimal.Layout.isPlainNearOne_double.wellFormed_of_write? h)

theorem wellFormed_ofFloat32 (x : Float32) : (ofFloat32 x).WellFormed := by
  rw [ofFloat32]
  cases h : Decimal.ofFloat32? x with
  | none => exact .null
  | some n => exact .number (Decimal.Layout.isPlainNearOne_single.wellFormed_of_write? h)

theorem wellFormed_ofMembers {members : List (String × Json)} (h : ∀ m ∈ members, m.2.WellFormed) :
    (ofMembers members).WellFormed := by
  refine .object fun m hm ↦ ?_
  obtain ⟨field, hfield, rfl⟩ := List.mem_map.mp hm
  exact h field hfield

end Json

namespace Record

theorem ofMembers?_map {names : List String} {members : List (String × Json)}
    (hnames : members.map Prod.fst ⊆ names) (hnodup : (members.map Prod.fst).Nodup) :
    ofMembers? names (members.map fun m ↦ (some m.1, m.2)) = some ⟨members⟩ := by
  induction members with
  | nil => rfl
  | cons m members ih =>
    obtain ⟨hhead, htail⟩ := List.cons_subset.mp hnames
    obtain ⟨hfresh, hrest⟩ := List.nodup_cons.mp hnodup
    have hunique : ¬(members.any fun f ↦ f.1 == m.1) = true := by
      intro hany
      obtain ⟨f, hf, hsame⟩ := List.any_eq_true.mp hany
      exact hfresh (List.mem_map.mpr ⟨f, hf, eq_of_beq hsame⟩)
    simp only [List.map_cons, ofMembers?, ih htail hrest, Option.bind_eq_bind, Option.bind_some]
    rw [if_neg (not_not_intro hhead), if_neg hunique]
    rfl

theorem lookup_eq_none_of_notMem {α β : Type} [BEq α] [LawfulBEq α] {key : α}
    {members : List (α × β)} (h : key ∉ members.map Prod.fst) : members.lookup key = none := by
  rw [List.lookup_eq_none_iff]
  exact fun m hm ↦ bne_iff_ne.mpr fun hsame ↦ h (hsame ▸ List.mem_map_of_mem hm)

/-- Whether each of the names is the key of one member at most. -/
def NamesOnce (names : List String) (members : List (Option String × Json)) : Prop :=
  ∀ name ∈ names, (members.map Prod.fst).count (some name) ≤ 1

theorem NamesOnce.tail {names : List String} {m : Option String × Json}
    {members : List (Option String × Json)} (h : NamesOnce names (m :: members)) :
    NamesOnce names members := fun name hname ↦
  (List.Sublist.count_le _ (List.sublist_cons_self _ _)).trans (h name hname)

/-- Members in any order are a record with the fields that are among them, whatever else is among
them. -/
theorem exists_ofMembers? {names : List String} {members : List (Option String × Json)}
    (hkeys : none ∉ members.map Prod.fst) (honce : NamesOnce names members) :
    ∃ r, ofMembers? names members = some r ∧
      ∀ name ∈ names, r.find? name = members.lookup (some name) := by
  induction members with
  | nil => exact ⟨⟨[]⟩, rfl, fun _ _ ↦ rfl⟩
  | cons m members ih =>
    obtain ⟨key, v⟩ := m
    rw [List.map_cons, List.mem_cons, not_or] at hkeys
    obtain ⟨hkey, hkeys⟩ := hkeys
    obtain ⟨name, rfl⟩ := Option.ne_none_iff_exists'.mp (Ne.symm hkey)
    obtain ⟨r, hr, hfind⟩ := ih hkeys honce.tail
    simp only [ofMembers?, hr, Option.bind_eq_bind, Option.bind_some]
    by_cases hmem : name ∈ names
    · -- The name is not the key of a later member, so it is not among the fields yet.
      have hlater : members.lookup (some name) = none := by
        have hcount := honce name hmem
        rw [List.map_cons, List.count_cons_self] at hcount
        have hnone : some name ∉ members.map Prod.fst :=
          List.count_eq_zero.mp (Nat.le_zero.mp (Nat.le_of_add_le_add_right hcount))
        exact lookup_eq_none_of_notMem hnone
      have hfresh : ¬(r.fields.any fun f ↦ f.1 == name) = true := by
        intro hany
        obtain ⟨f, hf, hsame⟩ := List.any_eq_true.mp hany
        have hnone := (hfind name hmem).trans hlater
        rw [find?, List.lookup_eq_none_iff] at hnone
        exact bne_iff_ne.mp (hnone f hf) (eq_of_beq hsame).symm
      rw [if_neg (not_not_intro hmem), if_neg hfresh]
      refine ⟨_, rfl, fun other hother ↦ ?_⟩
      rw [find?, List.lookup_cons, List.lookup_cons, ← hfind other hother]
      rfl
    · rw [if_pos hmem]
      refine ⟨r, rfl, fun other hother ↦ ?_⟩
      have hother' : (some other == some name) = false :=
        beq_false_of_ne fun hsame ↦ hmem (Option.some.inj hsame ▸ hother)
      rw [hfind other hother, List.lookup_cons, hother']

/-- A key that is no text spoils the record. -/
theorem ofMembers?_eq_none {names : List String} {members : List (Option String × Json)}
    (h : none ∈ members.map Prod.fst) : ofMembers? names members = none := by
  induction members with
  | nil => cases h
  | cons m members ih =>
    obtain ⟨key, v⟩ := m
    cases key with
    | none => rfl
    | some name =>
      rw [List.map_cons, List.mem_cons] at h
      simp only [ofMembers?, ih (h.resolve_left nofun), Option.bind_eq_bind, Option.bind_some,
        Option.bind_none]

/-- A record is read with the fields it was written with, each of them once. -/
theorem ofJson?_ofMembers {names : List String} {members : List (String × Json)}
    (hnames : (members.map Prod.fst).Sublist names) (hnodup : names.Nodup) :
    ofJson? names (.ofMembers members) = some ⟨members⟩ ∧ (members.map Prod.fst).Nodup :=
  ⟨ofMembers?_map hnames.subset (hnodup.sublist hnames), hnodup.sublist hnames⟩

section Find

variable {r : Record} (h : (r.fields.map Prod.fst).Nodup) {α : Type} {name : String} {v : Json}
  (read : Json → Option α)

include h

theorem find?_of_mem (hmem : (name, v) ∈ r.fields) : r.find? name = some v := by
  obtain ⟨before, after, hfields⟩ := List.append_of_mem hmem
  rw [find?, List.lookup_eq_some_iff]
  refine ⟨before, after, hfields, fun m hm ↦ bne_iff_ne.mpr fun hsame ↦ ?_⟩
  rw [hfields, List.map_append, List.map_cons, List.nodup_append] at h
  exact h.2.2 m.1 (List.mem_map_of_mem hm) name List.mem_cons_self hsame.symm

theorem required_of_mem (hmem : (name, v) ∈ r.fields) : r.required name read = read v := by
  rw [required, find?_of_mem h hmem, Option.bind_some]

theorem optional_of_mem (hmem : (name, v) ∈ r.fields) (value : α) :
    r.optional name read value = read v := by
  rw [optional, find?_of_mem h hmem]

end Find

theorem optional_of_notMem {r : Record} {α : Type} {name : String} (read : Json → Option α)
    (h : name ∉ r.fields.map Prod.fst) (value : α) : r.optional name read value = some value := by
  have hnone : r.find? name = none := lookup_eq_none_of_notMem h
  rw [optional, hnone]

end Record

end LayerCanvas
