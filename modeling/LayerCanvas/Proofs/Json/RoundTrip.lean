import LayerCanvas.Json.Writer
import LayerCanvas.Proofs.Json.Grammar

/-!
The reader reads what the writer writes. What is written for a value is a JSON text that stands for
the value, whatever follows it, and every JSON text is read for the value that it stands for.
-/

set_option autoImplicit false
set_option relaxedAutoImplicit false

namespace LayerCanvas.Json

open Reader (hexValue? shortEscape?)

/-- A JSON value whose numbers are well formed. -/
inductive WellFormed : Json → Prop
  | null : WellFormed .null
  | bool (b : Bool) : WellFormed (.bool b)
  | number {n : Numeral} (h : n.WellFormed) : WellFormed (.number n)
  | text (t : Option String) : WellFormed (.text t)
  | array {items : List Json} (h : ∀ v ∈ items, WellFormed v) : WellFormed (.array items)
  | object {members : List (Option String × Json)} (h : ∀ m ∈ members, WellFormed m.2) :
    WellFormed (.object members)

/-! ### Strings -/

theorem hexValue?_hexDigit (n : Fin 16) : hexValue? (hexDigit n) = some n.val := by
  revert n; decide

/-- A character is spelled by its escape. -/
theorem spells_escape (c : Char) {text rest letters : List Char}
    (h : Spells text (some letters) rest) :
    Spells (escape c ++ text) (some (c :: letters)) rest := by
  have hshort {letter d : Char} (hletter : shortEscape? letter = some d) :
      Spells ('\\' :: letter :: text) (some (d :: letters)) rest := .short hletter h
  unfold escape
  split_ifs with h1 h2 h3 h4 h5 h6 h7 h8
  · subst h1
    exact hshort (by decide)
  · subst h2
    exact hshort (by decide)
  · subst h3
    exact hshort (by decide)
  · subst h4
    exact hshort (by decide)
  · subst h5
    exact hshort (by decide)
  · subst h6
    exact hshort (by decide)
  · subst h7
    exact hshort (by decide)
  · have hzero : hexValue? '0' = some 0 := by decide
    have hunit := Unit.intro hzero hzero (hexValue?_hexDigit (Fin.ofNat 16 (c.toNat / 16)))
      (hexValue?_hexDigit (Fin.ofNat 16 c.toNat)) text
    have hvalue : 16 * (16 * (16 * 0 + 0) + c.toNat / 16 % 16) + c.toNat % 16 = c.toNat := by omega
    simp only [Fin.ofNat, hvalue] at hunit
    have hspells := Spells.unit hunit (by unfold IsHigh; omega) (by unfold IsLow; omega) h
    rwa [Char.ofNat_toNat] at hspells
  · exact .plain h1 h2 h8 h

theorem spells_letters (letters rest : List Char) :
    Spells (letters.flatMap escape ++ '"' :: rest) (some letters) rest := by
  induction letters with
  | nil => exact .close rest
  | cons c letters ih =>
    rw [List.flatMap_cons, List.append_assoc]
    exact spells_escape c ih

/-- A string in quotes is spelled by its letters, or by half a surrogate pair. -/
theorem exists_spells (t : Option String) (rest : List Char) :
    ∃ text letters, quote t rest = '"' :: text ∧ Spells text letters rest ∧
      letters.map String.ofList = t := by
  cases t with
  | none =>
    have hd : hexValue? 'd' = some 13 := by decide
    have height : hexValue? '8' = some 8 := by decide
    have hzero : hexValue? '0' = some 0 := by decide
    have halone : ∀ low after, Unit ('"' :: rest) low after → ¬ IsLow low := by
      intro low after hunit
      cases hunit
    have hspells : Spells ('\\' :: 'u' :: 'd' :: '8' :: '0' :: '0' :: '"' :: rest) none rest :=
      .highAlone (.intro hd height hzero hzero _) ⟨by decide, by decide⟩ halone (.close rest)
    exact ⟨_, none, rfl, hspells, rfl⟩
  | some s =>
    exact ⟨_, some s.toList, rfl, spells_letters s.toList rest,
      by rw [Option.map_some, String.ofList_toList]⟩

/-! ### Values -/

theorem spellsNumeral_chars (n : Numeral) : SpellsNumeral n n.chars := by
  unfold Numeral.chars
  cases h : n.exponent with
  | none => exact ⟨[], by rw [h]; exact .none, rfl⟩
  | some e =>
    have hsign : if e.negative then [if e.negative then '-' else '+'] = ['-']
        else [if e.negative then '-' else '+'] = [] ∨
          [if e.negative then '-' else '+'] = ['+'] := by
      cases e.negative <;> simp
    exact ⟨_, by rw [h]; exact .some (Or.inl rfl) hsign, rfl⟩

/-- Whether what is written for a value stands for it, whatever follows. -/
def IsWritten (v : Json) : Prop := ∀ rest, Writes (.value v) (v.onto rest) rest

theorem writes_items {v : Json} {items : List Json} (hv : IsWritten v)
    (h : ∀ w ∈ items, IsWritten w) (rest : List Char) :
    Writes (.items (v :: items)) (v.onto (itemsOnto rest items)) rest := by
  induction items generalizing v with
  | nil => exact .lastItem (.item (.none _) (hv _) (.none _))
  | cons w items ih =>
    obtain ⟨hw, hitems⟩ := List.forall_mem_cons.mp h
    exact .nextItem (.item (.none _) (hv _) (.none _)) (ih hw hitems)

theorem writes_keyed {v : Json} (hv : IsWritten v) (key : Option String) (rest : List Char) :
    Writes (.member (key, v)) (quote key (':' :: v.onto rest)) rest := by
  obtain ⟨text, letters, heq, hspells, rfl⟩ := exists_spells key (':' :: v.onto rest)
  rw [heq]
  exact .member (.none _) hspells (.none _) (.item (.none _) (hv rest) (.none rest))

theorem writes_members {m : Option String × Json} {members : List (Option String × Json)}
    (hm : IsWritten m.2) (h : ∀ w ∈ members, IsWritten w.2) (rest : List Char) :
    Writes (.members (m :: members)) (quote m.1 (':' :: m.2.onto (membersOnto rest members)))
      rest := by
  induction members generalizing m with
  | nil => exact .lastMember (writes_keyed hm m.1 _)
  | cons w members ih =>
    obtain ⟨hw, hmembers⟩ := List.forall_mem_cons.mp h
    exact .nextMember (writes_keyed hm m.1 _) (ih hw hmembers)

/-- What is written for a value with well-formed numbers stands for it. -/
theorem WellFormed.isWritten {v : Json} (h : v.WellFormed) : IsWritten v := by
  induction h with
  | null => exact .null
  | bool b =>
    cases b with
    | true => exact .true
    | false => exact .false
  | @number n h => exact .number h (spellsNumeral_chars n)
  | text t =>
    intro rest
    obtain ⟨text, letters, heq, hspells, rfl⟩ := exists_spells t rest
    show Writes _ (quote (letters.map String.ofList) rest) rest
    rw [heq]
    exact .text hspells
  | @array items hwell ih =>
    intro rest
    cases items with
    | nil => exact .emptyArray (.none _)
    | cons v items =>
      obtain ⟨hv, hitems⟩ := List.forall_mem_cons.mp ih
      exact .array (writes_items hv hitems rest)
  | @object members hwell ih =>
    intro rest
    cases members with
    | nil => exact .emptyObject (.none _)
    | cons m members =>
      obtain ⟨hm, hmembers⟩ := List.forall_mem_cons.mp ih
      exact .object (writes_members hm hmembers rest)

/-- What is written for a value is a JSON text that stands for it. -/
theorem isText_render {v : Json} (h : v.WellFormed) : v.IsText v.render := by
  rw [IsText, render, String.toList_ofList]
  exact .item (.none _) (h.isWritten []) (.none [])

/-- Reading undoes writing, for every value whose numbers are well formed. -/
theorem parse?_render {v : Json} (h : v.WellFormed) : parse? v.render = some v :=
  parse?_of_isText (isText_render h)

end LayerCanvas.Json
