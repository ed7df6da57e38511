import LayerCanvas.Proofs.Graph.Edit

/-!
An index from names to places. It is right about a list of items when it gives, for each name, the
place of the item that has the name, and nothing for other names. As an index gives one place to
each name, and two items never share a place, no two items then share a name.
-/

set_option autoImplicit false
set_option relaxedAutoImplicit false

namespace LayerCanvas

variable {α κ : Type} [DecidableEq κ] [Hashable κ]

/-- The index gives the places of the items under their names, and no others. -/
def Indexes (index : Std.HashMap κ Nat) (place : α → Nat) (name : α → κ) (items : List α) : Prop :=
  ∀ key p, index[key]? = some p ↔ ∃ x ∈ items, place x = p ∧ name x = key

namespace Indexes

variable {index : Std.HashMap κ Nat} {place : α → Nat} {name : α → κ} {items : List α}

theorem nil : Indexes (∅ : Std.HashMap κ Nat) place name [] := by
  intro key p
  simp

theorem getElem?_name (h : Indexes index place name items) {x : α} (hx : x ∈ items) :
    index[name x]? = some (place x) := (h _ _).mpr ⟨x, hx, rfl, rfl⟩

theorem mem_iff (h : Indexes index place name items) {key : κ} :
    key ∈ index ↔ key ∈ items.map name := by
  rw [Std.HashMap.mem_iff_isSome_getElem?, Option.isSome_iff_exists, List.mem_map]
  constructor
  · rintro ⟨p, hp⟩
    obtain ⟨x, hx, -, hname⟩ := (h key p).mp hp
    exact ⟨x, hx, hname⟩
  · rintro ⟨x, hx, rfl⟩
    exact ⟨place x, h.getElem?_name hx⟩

/-! ### Items at different places -/

/-- The item at the place of a name is the item with the name. -/
theorem place_eq_iff (h : Indexes index place name items) (hplaces : (items.map place).Nodup)
    {key : κ} {p : Nat} (hkey : index[key]? = some p) {x : α} (hx : x ∈ items) :
    place x = p ↔ name x = key := by
  constructor
  · intro hplace
    obtain ⟨y, hy, hyplace, hyname⟩ := (h key p).mp hkey
    rw [List.inj_on_of_nodup_map hplaces hx hy (hplace.trans hyplace.symm), hyname]
  · rintro rfl
    rw [h.getElem?_name hx] at hkey
    exact Option.some.inj hkey

theorem places_eq_iff (h : Indexes index place name items) (hplaces : (items.map place).Nodup)
    {key key' : κ} {p p' : Nat} (hkey : index[key]? = some p) (hkey' : index[key']? = some p') :
    p = p' ↔ key = key' := by
  obtain ⟨x, hx, rfl, rfl⟩ := (h key p).mp hkey
  exact h.place_eq_iff hplaces hkey' hx

theorem nodup_names (h : Indexes index place name items) (hplaces : (items.map place).Nodup) :
    (items.map name).Nodup := by
  refine (List.Nodup.of_map place hplaces).map_on fun x hx y hy hname ↦ ?_
  have hplace := (h.place_eq_iff hplaces (h.getElem?_name hy) hx).mpr hname
  exact List.inj_on_of_nodup_map hplaces hx hy hplace

theorem keys_perm (h : Indexes index place name items) (hplaces : (items.map place).Nodup) :
    index.keys.Perm (items.map name) := by
  have hnames := h.nodup_names hplaces
  refine (List.perm_ext_iff_of_nodup Std.HashMap.nodup_keys hnames).mpr fun key ↦ ?_
  rw [Std.HashMap.mem_keys, h.mem_iff]

/-- Going through the index finds what looking through the items finds. -/
theorem bind_find? (h : Indexes index place name items) (hplaces : (items.map place).Nodup)
    (key : κ) :
    (index[key]?.bind fun p ↦ items.find? fun x ↦ place x == p) =
      items.find? fun x ↦ name x == key := by
  ext x
  rw [Option.bind_eq_some_iff, find?_name_eq_some_iff (h.nodup_names hplaces)]
  simp only [find?_name_eq_some_iff hplaces]
  constructor
  · rintro ⟨p, hp, hx, hplace⟩
    exact ⟨hx, (h.place_eq_iff hplaces hp hx).mp hplace⟩
  · rintro ⟨hx, rfl⟩
    exact ⟨place x, h.getElem?_name hx, hx, rfl⟩

/-! ### Adding, changing and taking out -/

theorem insert (h : Indexes index place name items) {x : α} (hx : name x ∉ items.map name) :
    Indexes (index.insert (name x) (place x)) place name (items ++ [x]) := by
  intro key p
  have hold : (∃ y ∈ items ++ [x], place y = p ∧ name y = key) ↔
      (∃ y ∈ items, place y = p ∧ name y = key) ∨ place x = p ∧ name x = key := by
    simp [or_and_right, exists_or]
  rw [hold, Std.HashMap.getElem?_insert]
  split_ifs with hkey
  · rw [beq_iff_eq] at hkey
    subst hkey
    have hnone : ¬ ∃ y ∈ items, place y = p ∧ name y = name x := by
      rintro ⟨y, hy, -, hname⟩
      exact hx (hname ▸ List.mem_map_of_mem hy)
    simp [hnone]
  · rw [h key p]
    simp [beq_iff_eq.not.mp hkey]

theorem map (h : Indexes index place name items) {f : α → α}
    (hplace : ∀ x ∈ items, place (f x) = place x) (hname : ∀ x ∈ items, name (f x) = name x) :
    Indexes index place name (items.map f) := by
  intro key p
  rw [h key p]
  simp only [List.mem_map, exists_exists_and_eq_and]
  exact exists_congr fun x ↦ and_congr_right fun hx ↦ by rw [hplace x hx, hname x hx]

theorem filter (h : Indexes index place name items) {index' : Std.HashMap κ Nat} {q : κ → Bool}
    {r : α → Bool} (hindex : ∀ key, index'[key]? = if q key then index[key]? else none)
    (hr : ∀ x ∈ items, r x = q (name x)) : Indexes index' place name (items.filter r) := by
  intro key p
  rw [hindex]
  simp only [List.mem_filter]
  split_ifs with hkey
  · rw [h key p]
    refine exists_congr fun x ↦ ⟨?_, ?_⟩
    · rintro ⟨hx, hplace, rfl⟩
      exact ⟨⟨hx, (hr x hx).trans hkey⟩, hplace, rfl⟩
    · rintro ⟨⟨hx, -⟩, hplace, rfl⟩
      exact ⟨hx, hplace, rfl⟩
  · simp only [false_iff]
    rintro ⟨x, ⟨hx, hkept⟩, -, rfl⟩
    exact hkey ((hr x hx).symm.trans hkept)

end Indexes

/-- An index after several names have been taken out. -/
theorem getElem?_foldl_erase (index : Std.HashMap κ Nat) (keys : List κ) (key : κ) :
    (keys.foldl Std.HashMap.erase index)[key]? = if key ∈ keys then none else index[key]? := by
  induction keys generalizing index with
  | nil => simp
  | cons first rest ih =>
    rw [List.foldl_cons, ih, Std.HashMap.getElem?_erase]
    by_cases hfirst : first = key
    · simp [hfirst]
    · simp [hfirst, Ne.symm hfirst]

end LayerCanvas
