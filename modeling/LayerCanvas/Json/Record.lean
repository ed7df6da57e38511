import LayerCanvas.Json.Basic

/-!
Records in JSON. A record is written as an object, whose members are found by name in any order, or
as an array, whose items are the fields from the first on. Members with other names are passed
over; a field that appears twice, an unreadable key or an item too many spoils the record.
-/

set_option autoImplicit false
set_option relaxedAutoImplicit false

namespace LayerCanvas

/-- The fields of a record that were written, by name. -/
structure Record where
  fields : List (String × Json)

namespace Record

/-- The fields named in `names` among the members of an object. -/
def ofMembers? (names : List String) : List (Option String × Json) → Option Record
  | [] => some ⟨[]⟩
  | (key, v) :: rest => do
    let key ← key
    let record ← ofMembers? names rest
    if key ∉ names then pure record
    else if record.fields.any fun f ↦ f.1 == key then none
    else pure ⟨(key, v) :: record.fields⟩

/-- A record with the given field names. -/
def ofJson? (names : List String) : Json → Option Record
  | .object members => ofMembers? names members
  | .array items => if items.length ≤ names.length then some ⟨names.zip items⟩ else none
  | _ => none

/-- A field as it was written. -/
def find? (r : Record) (name : String) : Option Json := r.fields.lookup name

/-- A field that must be there. -/
def required {α : Type} (r : Record) (name : String) (read : Json → Option α) : Option α :=
  (r.find? name).bind read

/-- A field with a value of its own when it is left out. -/
def optional {α : Type} (r : Record) (name : String) (read : Json → Option α) (value : α) :
    Option α :=
  match r.find? name with
  | none => some value
  | some v => read v

end Record

end LayerCanvas
