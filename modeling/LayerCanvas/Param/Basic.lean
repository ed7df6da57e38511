/-!
Parameters of a layer. Each is a truth value, a number or a text, and keeps the kind it was declared
with: an edit may change the value of a parameter but neither its kind nor the set of names. The
parameters of a layer are held in the order of their names, which makes equal sets equal lists.
-/

set_option autoImplicit false
set_option relaxedAutoImplicit false

namespace LayerCanvas

/-- The kind of a parameter. -/
inductive ParamKind
  | bool
  | number
  | text
  deriving DecidableEq

/-- The name of a kind. -/
def ParamKind.name : ParamKind → String
  | .bool => "bool"
  | .number => "number"
  | .text => "text"

/-- The value of a parameter. -/
inductive ParamValue (R : Type := Float) where
  | bool (b : Bool)
  | number (x : R)
  | text (s : String)
  deriving DecidableEq

/-- The kind of a value. -/
def ParamValue.kind {R : Type} : ParamValue R → ParamKind
  | .bool _ => .bool
  | .number _ => .number
  | .text _ => .text

/-- Named parameters, in strictly increasing order of their names. -/
structure Params (R : Type := Float) where
  entries : List (String × ParamValue R)
  sorted : entries.Pairwise fun a b ↦ a.1 < b.1
  deriving DecidableEq

namespace Params

variable {R : Type}

/-- No parameters. -/
def empty : Params R := ⟨[], .nil⟩

/-- The value of a parameter. -/
def find? (ps : Params R) (name : String) : Option (ParamValue R) := ps.entries.lookup name

/-- An entry put in its place, instead of one with the same name. -/
def insertEntry (name : String) (value : ParamValue R) :
    List (String × ParamValue R) → List (String × ParamValue R)
  | [] => [(name, value)]
  | entry :: rest =>
    if name < entry.1 then (name, value) :: entry :: rest
    else if name = entry.1 then (name, value) :: rest
    else entry :: insertEntry name value rest

theorem mem_insertEntry {name : String} {value : ParamValue R}
    {entries : List (String × ParamValue R)} {entry : String × ParamValue R}
    (h : entry ∈ insertEntry name value entries) : entry = (name, value) ∨ entry ∈ entries := by
  induction entries with
  | nil => simpa [insertEntry] using h
  | cons head rest ih =>
    unfold insertEntry at h
    split at h
    · simpa using h
    · split at h
      · rcases List.mem_cons.1 h with h | h
        · exact .inl h
        · exact .inr (List.mem_cons_of_mem _ h)
      · rcases List.mem_cons.1 h with h | h
        · exact .inr (h ▸ List.mem_cons_self)
        · exact (ih h).imp_right (List.mem_cons_of_mem _)

theorem sorted_insertEntry (name : String) (value : ParamValue R)
    {entries : List (String × ParamValue R)} (h : entries.Pairwise fun a b ↦ a.1 < b.1) :
    (insertEntry name value entries).Pairwise fun a b ↦ a.1 < b.1 := by
  induction entries with
  | nil => simp [insertEntry]
  | cons head rest ih =>
    have ⟨hhead, hrest⟩ := List.pairwise_cons.1 h
    unfold insertEntry
    split
    · next hlt =>
      refine List.pairwise_cons.2 ⟨fun entry hmem ↦ ?_, h⟩
      rcases List.mem_cons.1 hmem with rfl | hmem
      · exact hlt
      · exact String.lt_trans hlt (hhead entry hmem)
    · next hlt =>
      split
      · next heq => exact List.pairwise_cons.2 ⟨fun entry hmem ↦ heq ▸ hhead entry hmem, hrest⟩
      · next hne =>
        refine List.pairwise_cons.2 ⟨fun entry hmem ↦ ?_, ih hrest⟩
        rcases mem_insertEntry hmem with rfl | hmem
        · exact String.not_le.1 fun hle ↦ hne (String.le_antisymm hle (String.not_lt.1 hlt))
        · exact hhead entry hmem

/-- Gives a parameter a value, whether or not it was there. -/
def insert (ps : Params R) (name : String) (value : ParamValue R) : Params R :=
  ⟨insertEntry name value ps.entries, sorted_insertEntry name value ps.sorted⟩

/-- The parameters of a list. Of two entries with one name the later one counts. -/
def ofList (entries : List (String × ParamValue R)) : Params R :=
  entries.foldl (fun ps entry ↦ ps.insert entry.1 entry.2) empty

end Params

end LayerCanvas
