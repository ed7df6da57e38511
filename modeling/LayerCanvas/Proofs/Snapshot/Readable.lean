import LayerCanvas.Proofs.Binary.Narrowing
import LayerCanvas.Proofs.Snapshot.RoundTrip

/-!
Which snapshots can be read again. A number that is not finite has no numeral and is written as
`null`, which stands for no number, so the text that holds it is refused as a whole.
-/

set_option autoImplicit false
set_option relaxedAutoImplicit false

namespace LayerCanvas

namespace Json

/-! ### Numbers without a numeral -/

theorem ofFloat_eq_null_iff {x : Float} : ofFloat x = .null ↔ Scalar.isFinite x = false := by
  rw [Binary.isFinite_eq, ofFloat, Decimal.ofFloat?]
  cases x.toModel.unpack <;>
    simp [Decimal.Layout.write?, Float.Model.UnpackedFloat.isFinite]

theorem ofFloat32_eq_null_iff {x : Float32} : ofFloat32 x = .null ↔ Scalar.isFinite x = false := by
  rw [Binary.isFinite_single_eq, ofFloat32, Decimal.ofFloat32?]
  cases x.toModel.unpack <;>
    simp [Decimal.Layout.write?, Float.Model.UnpackedFloat.isFinite]

theorem isFinite_of_toFloat? {x y : Float} (h : (ofFloat x).toFloat? = some y) :
    Scalar.isFinite x = true := by
  by_contra hinfinite
  rw [ofFloat_eq_null_iff.mpr (Bool.eq_false_iff.mpr hinfinite)] at h
  cases h

theorem isFinite_of_toFloat32? {x y : Float32} (h : (ofFloat32 x).toFloat32? = some y) :
    Scalar.isFinite x = true := by
  by_contra hinfinite
  rw [ofFloat32_eq_null_iff.mpr (Bool.eq_false_iff.mpr hinfinite)] at h
  cases h

/-! ### Values within values -/

/-- A value is another one or occurs in it. -/
inductive Occurs (v : Json) : Json → Prop
  | here : Occurs v v
  | item {items : List Json} {w : Json} (hw : w ∈ items) (h : Occurs v w) : Occurs v (.array items)
  | member {members : List (Option String × Json)} {m : Option String × Json} (hm : m ∈ members)
    (h : Occurs v m.2) : Occurs v (.object members)

theorem not_null_occurs_ofString (s : String) : ¬ Occurs .null (ofString s) := nofun

theorem null_occurs_array_iff {items : List Json} :
    Occurs .null (.array items) ↔ ∃ w ∈ items, Occurs .null w := by
  constructor
  · rintro (_ | ⟨hw, h⟩)
    exact ⟨_, hw, h⟩
  · rintro ⟨w, hw, h⟩
    exact .item hw h

theorem null_occurs_ofMembers_iff {members : List (String × Json)} :
    Occurs .null (ofMembers members) ↔ ∃ m ∈ members, Occurs .null m.2 := by
  constructor
  · rintro (_ | _ | ⟨hm, h⟩)
    obtain ⟨m', hm', rfl⟩ := List.mem_map.mp hm
    exact ⟨m', hm', h⟩
  · rintro ⟨m, hm, h⟩
    exact .member (List.mem_map_of_mem hm) h

theorem null_occurs_iff_eq {v : Json} (h : v = .null ∨ ∃ n, v = .number n) :
    Occurs .null v ↔ v = .null := by
  rcases h with rfl | ⟨n, rfl⟩
  · exact iff_of_true .here rfl
  · exact iff_of_false nofun nofun

theorem null_occurs_ofFloat_iff {x : Float} :
    Occurs .null (ofFloat x) ↔ Scalar.isFinite x = false := by
  rw [← ofFloat_eq_null_iff]
  refine null_occurs_iff_eq ?_
  unfold ofFloat
  cases Decimal.ofFloat? x with
  | none => exact Or.inl rfl
  | some n => exact Or.inr ⟨n, rfl⟩

theorem null_occurs_ofFloat32_iff {x : Float32} :
    Occurs .null (ofFloat32 x) ↔ Scalar.isFinite x = false := by
  rw [← ofFloat32_eq_null_iff]
  refine null_occurs_iff_eq ?_
  unfold ofFloat32
  cases Decimal.ofFloat32? x with
  | none => exact Or.inl rfl
  | some n => exact Or.inr ⟨n, rfl⟩

/-- A text that holds a `null`. -/
def HasNull (text : String) : Prop := ∃ v, parse? text = some v ∧ Occurs .null v

theorem hasNull_render_iff {v : Json} (h : v.WellFormed) : HasNull v.render ↔ Occurs .null v := by
  simp [HasNull, parse?_render h]

end Json

/-! ### Snapshots -/

theorem ParamValue.null_occurs_iff {v : ParamValue} :
    Json.Occurs .null v.toJson ↔ ∃ x ∈ v.doubles, Scalar.isFinite x = false := by
  cases v with
  | bool b => exact iff_of_false nofun (by simp [doubles])
  | text s => exact iff_of_false nofun (by simp [doubles])
  | number x => simp [toJson, doubles, Json.null_occurs_ofFloat_iff]

theorem Params.null_occurs_iff {ps : Params} :
    Json.Occurs .null ps.toJson ↔ ∃ x ∈ ps.doubles, Scalar.isFinite x = false := by
  rw [toJson, Json.null_occurs_ofMembers_iff]
  simp only [List.mem_map, exists_exists_and_eq_and, ParamValue.null_occurs_iff, doubles,
    List.mem_flatMap]
  tauto

theorem Node.null_occurs_iff {n : Node} :
    Json.Occurs .null n.toJson ↔ (∃ x ∈ n.singles, Scalar.isFinite x = false) ∨
      ∃ x ∈ n.layer.params.doubles, Scalar.isFinite x = false := by
  rw [toJson, Json.null_occurs_ofMembers_iff]
  simp only [members, Layer.leadingMembers, Layer.trailingMembers, List.cons_append,
    List.nil_append, List.exists_mem_cons_iff, List.not_mem_nil, false_and, exists_false, or_false,
    Json.not_null_occurs_ofString, Json.null_occurs_ofFloat32_iff, Params.null_occurs_iff,
    false_or, singles]
  tauto

theorem Connection.null_occurs_iff {c : Connection} :
    Json.Occurs .null c.toJson ↔ ∃ x ∈ c.singles, Scalar.isFinite x = false := by
  rw [toJson, Json.null_occurs_ofMembers_iff]
  simp only [List.exists_mem_cons_iff, List.not_mem_nil, false_and, exists_false, or_false,
    Json.not_null_occurs_ofString, Json.null_occurs_ofFloat32_iff, false_or, singles]

namespace Snapshot

/-- The text of a snapshot holds a `null` exactly for a number that is not finite. -/
theorem hasNull_render_iff {s : Snapshot} :
    Json.HasNull s.render ↔ ¬ Json.AllFinite s.singles s.doubles := by
  rw [render, Json.hasNull_render_iff s.wellFormed_toJson, toJson, Json.null_occurs_ofMembers_iff]
  simp only [List.exists_mem_cons_iff, List.not_mem_nil, false_and, exists_false, or_false,
    Json.null_occurs_array_iff, List.mem_map, exists_exists_and_eq_and, Node.null_occurs_iff,
    Connection.null_occurs_iff, Json.AllFinite, singles, doubles, List.mem_append,
    List.mem_flatMap, not_and_or, not_forall, Bool.not_eq_true, exists_prop]
  constructor
  · rintro (⟨n, hn, ⟨x, hx, hfinite⟩ | ⟨x, hx, hfinite⟩⟩ | ⟨c, hc, x, hx, hfinite⟩)
    · exact Or.inl ⟨x, Or.inl ⟨n, hn, hx⟩, hfinite⟩
    · exact Or.inr ⟨x, ⟨n, hn, hx⟩, hfinite⟩
    · exact Or.inl ⟨x, Or.inr ⟨c, hc, hx⟩, hfinite⟩
  · rintro (⟨x, ⟨n, hn, hx⟩ | ⟨c, hc, hx⟩, hfinite⟩ | ⟨x, ⟨n, hn, hx⟩, hfinite⟩)
    · exact Or.inl ⟨n, hn, Or.inl ⟨x, hx, hfinite⟩⟩
    · exact Or.inr ⟨c, hc, x, hx, hfinite⟩
    · exact Or.inl ⟨n, hn, Or.inr ⟨x, hx, hfinite⟩⟩

end Snapshot

end LayerCanvas
