import LayerCanvas.Proofs.Names

/-!
The search for a fresh name, draw by draw. It draws the name of a serial, and goes on to the next
one for as long as the name is in use; nothing in it says when to stop. It stops all the same, after
one more draw than there are names in use at the latest, since the names that it draws are all
different. They differ from all other names of other serials too, whatever the stems: the digits
behind the last hyphen of a name tell its serial, and what stands before it is the stem.
-/

set_option autoImplicit false
set_option relaxedAutoImplicit false

namespace LayerCanvas.Serial

variable {stem : String} {taken : List String} {serial : Nat}

/-! ### Names -/

/-- What stands behind the last place of a letter, and what stands before it. -/
theorem append_cons_inj {α : Type} {x : α} {a a' b b' : List α} (hb : x ∉ b) (hb' : x ∉ b')
    (h : a ++ x :: b = a' ++ x :: b') : a = a' ∧ b = b' := by
  rcases List.append_eq_append_iff.mp h with ⟨mid, rfl, hmid⟩ | ⟨mid, rfl, hmid⟩ <;> cases mid
  · exact ⟨(List.append_nil _).symm, (List.cons.inj hmid).2⟩
  · exact absurd (by simp [(List.cons.inj hmid).2]) hb
  · exact ⟨List.append_nil _, (List.cons.inj hmid).2.symm⟩
  · exact absurd (by simp [(List.cons.inj hmid).2]) hb'

theorem hyphen_notMem_toDigits (n : Nat) : '-' ∉ Nat.toDigits 10 n := fun h ↦
  absurd (Nat.isDigit_of_mem_toDigits (Nat.zero_lt_succ 9) (Nat.le_refl 10) h) (by decide)

/-- A name tells its stem and its serial, also if the stem itself ends in a hyphen and digits. -/
theorem name_inj {stem' : String} {i j : Nat} :
    name stem i = name stem' j ↔ stem = stem' ∧ i = j := by
  refine ⟨fun h ↦ ?_, fun ⟨hstem, hserial⟩ ↦ hstem ▸ hserial ▸ rfl⟩
  have hletters : stem.toList ++ '-' :: Nat.toDigits 10 i =
      stem'.toList ++ '-' :: Nat.toDigits 10 j := by
    simpa [name, Nat.toString_eq_repr] using congrArg String.toList h
  obtain ⟨hstem, -⟩ :=
    append_cons_inj (hyphen_notMem_toDigits i) (hyphen_notMem_toDigits j) hletters
  obtain rfl := String.toList_inj.mp hstem
  exact ⟨rfl, name_injective stem h⟩

example : name "Input-1" 2 ≠ name "Input" 12 := by decide

/-- The names of some serials in a row. -/
def names (stem : String) (serial count : Nat) : List String :=
  (List.range' serial count).map (name stem)

@[simp] theorem length_names (stem : String) (serial count : Nat) :
    (names stem serial count).length = count := by simp [names]

theorem names_succ (stem : String) (serial count : Nat) :
    names stem serial (count + 1) = name stem serial :: names stem (serial + 1) count := rfl

theorem nodup_names (stem : String) (serial count : Nat) : (names stem serial count).Nodup :=
  (List.nodup_range' 1).map (name_injective stem)

theorem exists_of_mem_names {count : Nat} {text : String} (h : text ∈ names stem serial count) :
    ∃ n, serial ≤ n ∧ n < serial + count ∧ text = name stem n := by
  obtain ⟨n, hn, rfl⟩ := List.mem_map.mp h
  obtain ⟨hle, hlt⟩ := List.mem_range'_1.mp hn
  exact ⟨n, hle, hlt, rfl⟩

/-! ### The search -/

/-- The search from a serial draws these names, one after the other. -/
inductive Draws (stem : String) (taken : List String) : Nat → List String → Prop
  | stops {serial : Nat} (h : name stem serial ∉ taken) : Draws stem taken serial [name stem serial]
  | goesOn {serial : Nat} {rest : List String} (h : name stem serial ∈ taken)
    (hrest : Draws stem taken (serial + 1) rest) :
    Draws stem taken serial (name stem serial :: rest)

/-- The search leaves no choice. -/
theorem Draws.unique {drawn drawn' : List String} (h : Draws stem taken serial drawn)
    (h' : Draws stem taken serial drawn') : drawn = drawn' := by
  induction h generalizing drawn' with
  | stops hfree =>
    cases h' with
    | stops => rfl
    | goesOn htaken => exact absurd htaken hfree
  | goesOn htaken _ ih =>
    cases h' with
    | stops hfree => exact absurd htaken hfree
    | goesOn _ hrest => rw [ih hrest]

/-- The first serial whose name is found free is neither before the first one that is looked at nor
after the last one. -/
theorem firstFree_bounds (stem : String) (taken : List String) (tries serial : Nat) :
    serial ≤ firstFree stem taken tries serial ∧
      firstFree stem taken tries serial ≤ serial + tries := by
  induction tries generalizing serial with
  | zero => exact ⟨Nat.le_refl _, Nat.le_refl _⟩
  | succ tries ih =>
    rw [firstFree]
    split_ifs
    · have hbounds := ih (serial + 1)
      omega
    · omega

/-- How many names the search for a fresh one draws. -/
def draws (stem : String) (taken : List String) (serial : Nat) : Nat :=
  fresh stem taken serial + 1 - serial

theorem fresh_succ_eq (stem : String) (taken : List String) (serial : Nat) :
    fresh stem taken serial + 1 = serial + draws stem taken serial := by
  have hbounds := firstFree_bounds stem taken taken.length serial
  unfold draws fresh
  omega

theorem draws_le (stem : String) (taken : List String) (serial : Nat) :
    draws stem taken serial ≤ taken.length + 1 := by
  have hbounds := firstFree_bounds stem taken taken.length serial
  unfold draws fresh
  omega

theorem draws_firstFree {tries : Nat} (h : name stem (firstFree stem taken tries serial) ∉ taken) :
    Draws stem taken serial
      (names stem serial (firstFree stem taken tries serial + 1 - serial)) := by
  induction tries generalizing serial with
  | zero =>
    rw [firstFree, Nat.add_sub_cancel_left]
    exact .stops h
  | succ tries ih =>
    have hbounds := firstFree_bounds stem taken tries (serial + 1)
    rw [firstFree] at h ⊢
    split_ifs at h ⊢ with htaken
    · rw [show firstFree stem taken tries (serial + 1) + 1 - serial =
        firstFree stem taken tries (serial + 1) + 1 - (serial + 1) + 1 by omega, names_succ]
      exact .goesOn htaken (ih h)
    · rw [Nat.add_sub_cancel_left]
      exact .stops htaken

/-- What it comes to that a fresh name is made: the search draws some names, of which it returns the
last one, and the serials go on behind it. -/
structure Mints (stem : String) (taken : List String) (serial : Nat) (drawn : List String)
    (text : String) (next : Nat) : Prop where
  /-- The search has an end, and there is only one way to it. -/
  draws_iff : ∀ other, Draws stem taken serial other ↔ other = drawn
  length_le : drawn.length ≤ taken.length + 1
  next_eq : next = serial + drawn.length
  getLast?_eq : drawn.getLast? = some text
  form : ∃ n, serial ≤ n ∧ text = stem ++ "-" ++ toString n
  free : text ∉ taken

theorem mints_fresh (stem : String) (taken : List String) (serial : Nat) :
    Mints stem taken serial (names stem serial (draws stem taken serial))
      (name stem (fresh stem taken serial)) (fresh stem taken serial + 1) := by
  have hfree := fresh_notMem stem taken serial
  have hdraws : Draws stem taken serial (names stem serial (draws stem taken serial)) :=
    draws_firstFree hfree
  have hbounds := firstFree_bounds stem taken taken.length serial
  have hnext := fresh_succ_eq stem taken serial
  refine ⟨fun other ↦ ⟨fun h ↦ h.unique hdraws, fun h ↦ h ▸ hdraws⟩, ?_, ?_, ?_,
    ⟨_, hbounds.1, rfl⟩, hfree⟩
  · rw [length_names]
    exact draws_le stem taken serial
  · rw [length_names, hnext]
  · rw [names, List.getLast?_map, List.getLast?_range', if_neg (by unfold draws fresh; omega)]
    have hlast : serial + draws stem taken serial - 1 = fresh stem taken serial := by omega
    simp [hlast]

end LayerCanvas.Serial
