import LayerCanvas.Proofs.Json.Reading

/-!
The grammar of JSON texts, and that the reader takes every text of it. A value can be written in
many ways: with blanks between its parts, with or without escapes in its strings, with either letter
before an exponent. The grammar relates what is written, in front of what follows it, to the value
that it stands for. The machine, set before a value, ends behind it in the state that the value
leads to, whatever is open around it and however it is written.
-/

set_option autoImplicit false
set_option relaxedAutoImplicit false

namespace LayerCanvas.Json

open Reader (hexValue? shortEscape? isBlank)

/-! ### The grammar -/

/-- Some blanks, in front of what follows. -/
inductive Blanks : List Char → List Char → Prop
  | none (rest : List Char) : Blanks rest rest
  | cons {c : Char} {text rest : List Char} (hblank : c = ' ' ∨ c = '\t' ∨ c = '\n' ∨ c = '\r')
    (h : Blanks text rest) : Blanks (c :: text) rest

/-- An escaped code unit, in front of what follows. -/
inductive Unit : List Char → Nat → List Char → Prop
  | intro {c₁ c₂ c₃ c₄ : Char} {d₁ d₂ d₃ d₄ : Nat} (h₁ : hexValue? c₁ = some d₁)
    (h₂ : hexValue? c₂ = some d₂) (h₃ : hexValue? c₃ = some d₃) (h₄ : hexValue? c₄ = some d₄)
    (rest : List Char) :
    Unit ('\\' :: 'u' :: c₁ :: c₂ :: c₃ :: c₄ :: rest)
      (16 * (16 * (16 * d₁ + d₂) + d₃) + d₄) rest

/-- The first half of a surrogate pair. -/
def IsHigh (unit : Nat) : Prop := 0xD800 ≤ unit ∧ unit < 0xDC00

/-- The second half of a surrogate pair. -/
def IsLow (unit : Nat) : Prop := 0xDC00 ≤ unit ∧ unit < 0xE000

/-- The letters of a string and its closing quote, in front of what follows. Half a surrogate pair
without the other half stands for no letter, and the string for no text. -/
inductive Spells : List Char → Option (List Char) → List Char → Prop
  | close (rest : List Char) : Spells ('"' :: rest) (some []) rest
  | plain {c : Char} {text rest : List Char} {letters : Option (List Char)} (hquote : c ≠ '"')
    (hslash : c ≠ '\\') (hcontrol : ¬ c.toNat < 32) (h : Spells text letters rest) :
    Spells (c :: text) (letters.map (c :: ·)) rest
  | short {c letter : Char} {text rest : List Char} {letters : Option (List Char)}
    (hletter : shortEscape? letter = some c) (h : Spells text letters rest) :
    Spells ('\\' :: letter :: text) (letters.map (c :: ·)) rest
  | unit {unit : Nat} {all text rest : List Char} {letters : Option (List Char)}
    (hunit : Unit all unit text) (hhigh : ¬ IsHigh unit) (hlow : ¬ IsLow unit)
    (h : Spells text letters rest) : Spells all (letters.map (Char.ofNat unit :: ·)) rest
  | pair {high low : Nat} {all half text rest : List Char} {letters : Option (List Char)}
    (hfirst : Unit all high half) (hhigh : IsHigh high) (hsecond : Unit half low text)
    (hlow : IsLow low) (h : Spells text letters rest) :
    Spells all
      (letters.map (Char.ofNat (0x10000 + (high - 0xD800) * 0x400 + (low - 0xDC00)) :: ·)) rest
  | lowAlone {low : Nat} {all text rest : List Char} {letters : Option (List Char)}
    (hunit : Unit all low text) (hlow : IsLow low) (h : Spells text letters rest) :
    Spells all none rest
  | highAlone {high : Nat} {all text rest : List Char} {letters : Option (List Char)}
    (hunit : Unit all high text) (hhigh : IsHigh high)
    (hnext : ∀ low after, Unit text low after → ¬ IsLow low) (h : Spells text letters rest) :
    Spells all none rest

/-- An exponent as it may be written: with either letter, and with a sign that may be left out if it
is a plus. -/
inductive SpellsExponent : Option Exponent → List Char → Prop
  | none : SpellsExponent none []
  | some {e : Exponent} {mark : Char} {sign : List Char} (hmark : mark = 'e' ∨ mark = 'E')
    (hsign : if e.negative then sign = ['-'] else sign = [] ∨ sign = ['+']) :
    SpellsExponent (some e) (mark :: (sign ++ e.digits.map Digit.char))

/-- A numeral as it may be written. -/
def SpellsNumeral (n : Numeral) (text : List Char) : Prop :=
  ∃ exponent, SpellsExponent n.exponent exponent ∧
    text = (if n.negative then ['-'] else []) ++ n.whole.map Digit.char ++
      (if n.fraction = [] then [] else '.' :: n.fraction.map Digit.char) ++ exponent

/-- The parts of a JSON text that stand for something. -/
inductive Part
  /-- A value, from its first character to its last. -/
  | value (v : Json)
  /-- A value with the blanks around it. -/
  | item (v : Json)
  /-- A key with its value. -/
  | member (m : Option String × Json)
  /-- The items of an array, up to its end. -/
  | items (items : List Json)
  /-- The members of an object, up to its end. -/
  | members (members : List (Option String × Json))

/-- What is written for a part of a JSON text, in front of what follows. -/
inductive Writes : Part → List Char → List Char → Prop
  | null (rest : List Char) : Writes (.value .null) ("null".toList ++ rest) rest
  | true (rest : List Char) : Writes (.value (.bool true)) ("true".toList ++ rest) rest
  | false (rest : List Char) : Writes (.value (.bool false)) ("false".toList ++ rest) rest
  | number {n : Numeral} {text : List Char} (h : n.WellFormed) (htext : SpellsNumeral n text)
    (rest : List Char) : Writes (.value (.number n)) (text ++ rest) rest
  | text {text rest : List Char} {letters : Option (List Char)} (h : Spells text letters rest) :
    Writes (.value (.text (letters.map String.ofList))) ('"' :: text) rest
  | emptyArray {text rest : List Char} (h : Blanks text (']' :: rest)) :
    Writes (.value (.array [])) ('[' :: text) rest
  | array {v : Json} {items : List Json} {text rest : List Char}
    (h : Writes (.items (v :: items)) text rest) :
    Writes (.value (.array (v :: items))) ('[' :: text) rest
  | emptyObject {text rest : List Char} (h : Blanks text ('}' :: rest)) :
    Writes (.value (.object [])) ('{' :: text) rest
  | object {m : Option String × Json} {members : List (Option String × Json)}
    {text rest : List Char} (h : Writes (.members (m :: members)) text rest) :
    Writes (.value (.object (m :: members))) ('{' :: text) rest
  | item {v : Json} {text inner after rest : List Char} (hbefore : Blanks text inner)
    (h : Writes (.value v) inner after) (hafter : Blanks after rest) :
    Writes (.item v) text rest
  | lastItem {v : Json} {text rest : List Char} (h : Writes (.item v) text (']' :: rest)) :
    Writes (.items [v]) text rest
  | nextItem {v : Json} {items : List Json} {text more rest : List Char}
    (h : Writes (.item v) text (',' :: more)) (hmore : Writes (.items items) more rest) :
    Writes (.items (v :: items)) text rest
  | member {v : Json} {text key colon inner rest : List Char} {letters : Option (List Char)}
    (hbefore : Blanks text ('"' :: key)) (hkey : Spells key letters colon)
    (hcolon : Blanks colon (':' :: inner)) (h : Writes (.item v) inner rest) :
    Writes (.member (letters.map String.ofList, v)) text rest
  | lastMember {m : Option String × Json} {text rest : List Char}
    (h : Writes (.member m) text ('}' :: rest)) : Writes (.members [m]) text rest
  | nextMember {m : Option String × Json} {members : List (Option String × Json)}
    {text more rest : List Char} (h : Writes (.member m) text (',' :: more))
    (hmore : Writes (.members members) more rest) : Writes (.members (m :: members)) text rest

/-- Whether a text is JSON, and for which value it stands. -/
def IsText (v : Json) (text : String) : Prop := Writes (.item v) text.toList []

namespace Reader

/-! ### Blanks -/

/-- A state in which blanks are passed over. -/
def PassesBlanks (s : State) : Prop := ∀ c, isBlank c = true → step s c = some s

theorem isBlank_iff {c : Char} : isBlank c = true ↔ c = ' ' ∨ c = '\t' ∨ c = '\n' ∨ c = '\r' := by
  simp [isBlank, or_assoc]

theorem read_blanks {s : State} (hs : PassesBlanks s) {text rest : List Char}
    (h : Blanks text rest) : read s text = read s rest := by
  induction h with
  | none => rfl
  | cons hblank h ih => rw [read_of_step (hs _ (isBlank_iff.mpr hblank)), ih]

theorem passesBlanks_value (stack : List Frame) : PassesBlanks ⟨.value, stack⟩ :=
  fun c hc ↦ by simp [step, hc]

theorem passesBlanks_firstItem (stack : List Frame) : PassesBlanks ⟨.firstItem, stack⟩ :=
  fun c hc ↦ by simp [step, hc]

theorem passesBlanks_firstKey (stack : List Frame) : PassesBlanks ⟨.firstKey, stack⟩ :=
  fun c hc ↦ by simp [step, hc]

theorem passesBlanks_key (stack : List Frame) : PassesBlanks ⟨.key, stack⟩ :=
  fun c hc ↦ by simp [step, hc]

theorem passesBlanks_colon (stack : List Frame) : PassesBlanks ⟨.colon, stack⟩ :=
  fun c hc ↦ by simp [step, hc]

theorem passesBlanks_complete {v : Json} {stack : List Frame} {s : State}
    (h : complete v stack = some s) : PassesBlanks s := fun c hc ↦ by
  rw [step_of_complete h, afterValue, if_pos hc]

/-! ### Strings -/

variable {isKey : Bool} {stack : List Frame}

theorem read_escapedUnit {all text : List Char} {unit : Nat} (h : Unit all unit text)
    (l : Letters) :
    read ⟨.text isKey l .plain, stack⟩ all =
      read ⟨.text isKey (l.pushUnit unit) .plain, stack⟩ text := by
  cases h with
  | intro h₁ h₂ h₃ h₄ =>
    rw [read_unit isKey l stack text h₁ h₂ h₃ h₄, Nat.mul_zero, Nat.zero_add]

theorem pushUnit_plain (l : Letters) {unit : Nat} (hhigh : ¬ IsHigh unit) (hlow : ¬ IsLow unit) :
    l.pushUnit unit = l.push (Char.ofNat unit) := by
  unfold IsHigh at hhigh
  unfold IsLow at hlow
  rw [Letters.pushUnit, if_neg hhigh, if_neg hlow]

theorem pushUnit_high (l : Letters) {unit : Nat} (hhigh : IsHigh unit) :
    l.pushUnit unit = ⟨l.letters, some unit, l.broken || l.half.isSome⟩ := by
  unfold IsHigh at hhigh
  rw [Letters.pushUnit, if_pos hhigh]

theorem pushUnit_low {l : Letters} {high unit : Nat} (hhalf : l.half = some high)
    (hlow : IsLow unit) :
    l.pushUnit unit =
      ⟨Char.ofNat (0x10000 + (high - 0xD800) * 0x400 + (unit - 0xDC00)) :: l.letters, none,
        l.broken⟩ := by
  unfold IsLow at hlow
  rw [Letters.pushUnit, if_neg (by omega), if_pos hlow, hhalf]

theorem pushUnit_lowAlone {l : Letters} {unit : Nat} (hhalf : l.half = none) (hlow : IsLow unit) :
    l.pushUnit unit = ⟨l.letters, none, true⟩ := by
  unfold IsLow at hlow
  rw [Letters.pushUnit, if_neg (by omega), if_pos hlow, hhalf]

/-- What the letters that have been read and those to come stand for. -/
def outcome (l : Letters) (letters : Option (List Char)) : Option String :=
  if l.broken || l.half.isSome then none
  else letters.map fun letters ↦ String.ofList (l.letters.reverse ++ letters)

theorem outcome_push (l : Letters) (c : Char) (letters : Option (List Char)) :
    outcome (l.push c) letters = outcome l (letters.map (c :: ·)) := by
  simp [outcome, Letters.push, Option.map_map, Function.comp_def]

/-- A string is read for what it stands for. A first half of a pair that waits for its second half
does not come to it. -/
theorem read_spelled {text rest : List Char} {letters : Option (List Char)}
    (h : Spells text letters rest) (l : Letters)
    (hl : l.half = none ∨ ∀ low after, Unit text low after → ¬ IsLow low) :
    read ⟨.text isKey l .plain, stack⟩ text =
      (completeText isKey (outcome l letters) stack).bind fun s ↦ read s rest := by
  induction h generalizing l with
  | close rest =>
    have htext : l.text? = outcome l (some []) := by simp [Letters.text?, outcome]
    rw [read_text, stepText, if_pos rfl, htext]
  | @plain c text rest letters hquote hslash hcontrol h ih =>
    have hstep : stepText isKey l .plain c stack = some ⟨.text isKey (l.push c) .plain, stack⟩ := by
      rw [stepText, if_neg hquote, if_neg hslash, if_neg hcontrol]
    rw [read_text, hstep, Option.bind_some, ih (l.push c) (Or.inl rfl), outcome_push]
  | @short c letter text rest letters hletter h ih =>
    have hunit : letter ≠ 'u' := by
      rintro rfl
      cases hletter
    have hstep : stepText isKey l .escaped letter stack =
        some ⟨.text isKey (l.push c) .plain, stack⟩ := by
      rw [stepText, if_neg hunit, hletter, Option.map_some]
    have hslash : stepText isKey l .plain '\\' stack = some ⟨.text isKey l .escaped, stack⟩ := rfl
    rw [read_text, hslash, Option.bind_some, read_text, hstep, Option.bind_some,
      ih (l.push c) (Or.inl rfl), outcome_push]
  | unit hunit hhigh hlow h ih =>
    rw [read_escapedUnit hunit, pushUnit_plain l hhigh hlow, ih (l.push _) (Or.inl rfl),
      outcome_push]
  | pair hfirst hhigh hsecond hlow h ih =>
    rw [read_escapedUnit hfirst, pushUnit_high l hhigh, read_escapedUnit hsecond,
      pushUnit_low rfl hlow, ih ⟨_, none, _⟩ (Or.inl rfl)]
    simp [outcome, Option.map_map, Function.comp_def]
  | lowAlone hunit hlow h ih =>
    have hhalf : l.half = none := hl.resolve_right fun hnext ↦ hnext _ _ hunit hlow
    rw [read_escapedUnit hunit, pushUnit_lowAlone hhalf hlow, ih ⟨_, none, _⟩ (Or.inl rfl)]
    simp [outcome]
  | highAlone hunit hhigh hnext h ih =>
    rw [read_escapedUnit hunit, pushUnit_high l hhigh, ih ⟨_, some _, _⟩ (Or.inr hnext)]
    simp [outcome]

/-- A string in quotes is read for what it stands for, as a key or as a value. -/
theorem read_string {s : State} (hs : step s '"' = some ⟨.text isKey {} .plain, s.stack⟩)
    {text rest : List Char} {letters : Option (List Char)} (h : Spells text letters rest) :
    read s ('"' :: text) =
      (completeText isKey (letters.map String.ofList) s.stack).bind fun s ↦ read s rest := by
  rw [read_of_step hs, read_spelled h {} (Or.inl rfl)]
  simp [outcome]

/-! ### Numerals -/

/-- What may follow a value: nothing, a blank, a comma or the end of a container. -/
def Stops (rest : List Char) : Prop :=
  ∀ c ∈ rest.head?, isBlank c = true ∨ c = ',' ∨ c = ']' ∨ c = '}'

theorem stops_of_blanks {text rest : List Char} (h : Blanks text rest) (hrest : Stops rest) :
    Stops text := by
  cases h with
  | none => exact hrest
  | cons hblank =>
    rintro c ⟨⟩
    exact Or.inl (isBlank_iff.mpr hblank)

theorem extend_eq_none_of_stops {rest : List Char} (hrest : Stops rest) (n : Numeral)
    (phase : NumeralPhase) : ∀ c ∈ rest.head?, extend n phase c = none := by
  intro c hc
  rcases hrest c hc with hblank | hend
  · rcases isBlank_iff.mp hblank with rfl | rfl | rfl | rfl <;> cases phase <;> rfl
  · rcases hend with rfl | rfl | rfl <;> cases phase <;> rfl

theorem read_spelledExponent {n : Numeral} (hn : n.exponent = none) {phase : NumeralPhase}
    (hphase : phase = .zero ∨ phase = .whole ∨ phase = .fraction) {exponent : Option Exponent}
    (hdigits : ∀ e ∈ exponent, e.digits ≠ []) {text : List Char}
    (h : SpellsExponent exponent text) (rest : List Char) :
    ∃ next : NumeralPhase, next.mayEnd = true ∧
      read ⟨.numeral n phase, stack⟩ (text ++ rest) =
        read ⟨.numeral { n with exponent } next, stack⟩ rest := by
  cases h with
  | none =>
    refine ⟨phase, by rcases hphase with rfl | rfl | rfl <;> rfl, ?_⟩
    rw [← hn, List.nil_append]
  | @some e mark sign hmark hsign =>
    obtain ⟨first, more, heq⟩ := List.exists_cons_of_ne_nil (hdigits e rfl)
    have hbegin : extend n phase mark = some (n, .mark) := by
      rcases hphase with rfl | rfl | rfl <;> rcases hmark with rfl | rfl <;> rfl
    have hrest (next : NumeralPhase) (put : Numeral) (hput : extend put next first.char =
        some ({ n with exponent := some ⟨e.negative, [first]⟩ }, .exponent)) :
        read ⟨.numeral put next, stack⟩ (e.digits.map Digit.char ++ rest) =
          read ⟨.numeral { n with exponent := some e } .exponent, stack⟩ rest := by
      rw [heq, List.map_cons, List.cons_append, read_of_extend hput,
        read_digits (fun digits ↦ { n with exponent := some ⟨e.negative, digits⟩ })
          (fun ds d ↦ by simp [extend, Digit.ofChar?_char]) [first] more rest,
        List.singleton_append, ← heq]
    have hsigned (c : Char) (hc : extend n .mark c =
        some ({ n with exponent := some ⟨e.negative, []⟩ }, .sign)) :
        read ⟨.numeral n .mark, stack⟩ (c :: (e.digits.map Digit.char ++ rest)) =
          read ⟨.numeral { n with exponent := some e } .exponent, stack⟩ rest := by
      rw [read_of_extend hc]
      exact hrest .sign _ (by simp [extend, Digit.ofChar?_char])
    refine ⟨.exponent, rfl, ?_⟩
    rw [List.cons_append, read_of_extend hbegin, List.append_assoc]
    cases hnegative : e.negative with
    | true =>
      rw [hnegative, if_pos rfl] at hsign
      subst hsign
      exact hsigned '-' (by rw [hnegative]; rfl)
    | false =>
      rw [hnegative, if_neg Bool.false_ne_true] at hsign
      rcases hsign with rfl | rfl
      · exact hrest .mark n (by simp [extend, Digit.ofChar?_char, hnegative])
      · exact hsigned '+' (by rw [hnegative]; rfl)

theorem read_spelledNumeral {n : Numeral} (h : n.WellFormed) {text : List Char}
    (htext : SpellsNumeral n text) (rest : List Char) :
    ∃ phase : NumeralPhase, phase.mayEnd = true ∧
      read ⟨.value, stack⟩ (text ++ rest) = read ⟨.numeral n phase, stack⟩ rest := by
  obtain ⟨negative, whole, fraction, exponent⟩ := n
  obtain ⟨first, more, rfl⟩ := List.exists_cons_of_ne_nil h.whole_ne_nil
  have hzero : first = .zero → more = [] := by
    rintro rfl
    exact (List.cons.inj (h.zero_alone rfl)).2
  have hphase : (if first = .zero then NumeralPhase.zero else .whole) = .zero ∨
      (if first = .zero then NumeralPhase.zero else .whole) = .whole := by
    split_ifs <;> simp
  obtain ⟨tail, htail, rfl⟩ := htext
  rw [List.append_assoc, List.append_assoc, read_whole negative hzero]
  obtain ⟨next, hnext, hread⟩ := read_fraction (n := ⟨negative, first :: more, [], none⟩) rfl hphase
    fraction stack (tail ++ rest)
  rw [hread]
  exact read_spelledExponent rfl hnext h.exponent_ne_nil htail rest

/-! ### Values -/

/-- A value begins neither with a blank nor with the end of an array. -/
theorem exists_cons_of_writes {v : Json} {text rest : List Char}
    (h : Writes (.value v) text rest) :
    ∃ c more, text = c :: more ∧ isBlank c = false ∧ c ≠ ']' := by
  cases h with
  | null => exact ⟨'n', _, rfl, by decide, by decide⟩
  | true => exact ⟨'t', _, rfl, by decide, by decide⟩
  | false => exact ⟨'f', _, rfl, by decide, by decide⟩
  | @number n text h htext =>
    obtain ⟨tail, -, rfl⟩ := htext
    obtain ⟨first, more, hwhole⟩ := List.exists_cons_of_ne_nil h.whole_ne_nil
    rw [hwhole]
    cases n.negative with
    | true => exact ⟨'-', _, rfl, by decide, by decide⟩
    | false =>
      have hbracket : ∀ d : Digit, d.char ≠ ']' := by decide
      exact ⟨first.char, _, rfl, isBlank_char first, hbracket first⟩
  | text => exact ⟨'"', _, rfl, by decide, by decide⟩
  | emptyArray | array => exact ⟨'[', _, rfl, by decide, by decide⟩
  | emptyObject | object => exact ⟨'{', _, rfl, by decide, by decide⟩

/-- An array that was just opened takes its first value as any other. -/
theorem read_firstItem_of_writes {v : Json} {text rest : List Char}
    (h : Writes (.item v) text rest) :
    read ⟨.firstItem, stack⟩ text = read ⟨.value, stack⟩ text := by
  cases h with
  | item hbefore h =>
    obtain ⟨c, more, rfl, hblank, hbracket⟩ := exists_cons_of_writes h
    rw [read_blanks (passesBlanks_firstItem stack) hbefore,
      read_blanks (passesBlanks_value stack) hbefore, read_cons, read_cons]
    simp [step, hblank, hbracket]

/-- An object that was just opened takes its first key as any other. -/
theorem read_firstKey_of_writes {m : Option String × Json} {text rest : List Char}
    (h : Writes (.member m) text rest) :
    read ⟨.firstKey, stack⟩ text = read ⟨.key, stack⟩ text := by
  cases h with
  | member hbefore =>
    rw [read_blanks (passesBlanks_firstKey stack) hbefore,
      read_blanks (passesBlanks_key stack) hbefore]
    rfl

/-- How the machine goes through a part of a text. -/
def ReadsPart (text rest : List Char) : Part → Prop
  | .value v | .item v => ∀ (stack : List Frame) (s : State), complete v stack = some s →
      Stops rest → read ⟨.value, stack⟩ text = read s rest
  | .member m => ∀ (before : List (Option String × Json)) (stack : List Frame), Stops rest →
      read ⟨.key, .object before :: stack⟩ text = read ⟨.next, .object (m :: before) :: stack⟩ rest
  | .items items => ∀ (before : List Json) (stack : List Frame) (s : State),
      complete (.array (before.reverse ++ items)) stack = some s →
        read ⟨.value, .array before :: stack⟩ text = read s rest
  | .members members => ∀ (before : List (Option String × Json)) (stack : List Frame) (s : State),
      complete (.object (before.reverse ++ members)) stack = some s →
        read ⟨.key, .object before :: stack⟩ text = read s rest

/-- The machine goes through every part of a text as the grammar says. -/
theorem reads_of_writes {part : Part} {text rest : List Char} (h : Writes part text rest) :
    ReadsPart text rest part := by
  -- The induction follows the grammar. What was read of a container lies on the stack, in reverse;
  -- the statements about what is left of it hold for every such beginning.
  induction h with
  | null rest =>
    intro stack s hs _
    exact (read_of_step rfl _).trans (read_word hs 'u' ['l', 'l'] rest)
  | true rest =>
    intro stack s hs _
    exact (read_of_step rfl _).trans (read_word hs 'r' ['u', 'e'] rest)
  | false rest =>
    intro stack s hs _
    exact (read_of_step rfl _).trans (read_word hs 'a' ['l', 's', 'e'] rest)
  | number h htext rest =>
    intro stack s hs hrest
    obtain ⟨phase, hphase, hread⟩ := read_spelledNumeral h htext rest
    exact hread.trans (read_of_mayEnd hphase hs (extend_eq_none_of_stops hrest _ phase))
  | text h =>
    intro stack s hs _
    have hquote : step ⟨.value, stack⟩ '"' = some ⟨.text false {} .plain, stack⟩ := rfl
    rw [read_string hquote h]
    show (complete _ stack).bind _ = _
    rw [hs, Option.bind_some]
  | emptyArray h =>
    intro stack s hs _
    have hopen : step ⟨.value, stack⟩ '[' = some ⟨.firstItem, .array [] :: stack⟩ := rfl
    have hclose : step ⟨.firstItem, .array [] :: stack⟩ ']' = some s := hs
    rw [read_of_step hopen, read_blanks (passesBlanks_firstItem _) h, read_of_step hclose]
  | @array v items text rest h ih =>
    intro stack s hs _
    have hopen : step ⟨.value, stack⟩ '[' = some ⟨.firstItem, .array [] :: stack⟩ := rfl
    rw [read_of_step hopen]
    have hfirst : read ⟨.firstItem, .array [] :: stack⟩ text =
        read ⟨.value, .array [] :: stack⟩ text := by
      cases h with
      | lastItem h => exact read_firstItem_of_writes h
      | nextItem h => exact read_firstItem_of_writes h
    exact hfirst.trans (ih [] stack s hs)
  | emptyObject h =>
    intro stack s hs _
    have hopen : step ⟨.value, stack⟩ '{' = some ⟨.firstKey, .object [] :: stack⟩ := rfl
    have hclose : step ⟨.firstKey, .object [] :: stack⟩ '}' = some s := hs
    rw [read_of_step hopen, read_blanks (passesBlanks_firstKey _) h, read_of_step hclose]
  | @object m members text rest h ih =>
    intro stack s hs _
    have hopen : step ⟨.value, stack⟩ '{' = some ⟨.firstKey, .object [] :: stack⟩ := rfl
    rw [read_of_step hopen]
    have hfirst : read ⟨.firstKey, .object [] :: stack⟩ text =
        read ⟨.key, .object [] :: stack⟩ text := by
      cases h with
      | lastMember h => exact read_firstKey_of_writes h
      | nextMember h => exact read_firstKey_of_writes h
    exact hfirst.trans (ih [] stack s hs)
  | item hbefore h hafter ih =>
    intro stack s hs hrest
    rw [read_blanks (passesBlanks_value stack) hbefore,
      ih stack s hs (stops_of_blanks hafter hrest), read_blanks (passesBlanks_complete hs) hafter]
  | @lastItem v text rest h ih =>
    intro before stack s hs
    have hclose : step ⟨.next, .array (v :: before) :: stack⟩ ']' = some s := by
      rw [← hs, ← List.reverse_cons]
      rfl
    rw [ih (.array before :: stack) _ rfl (by rintro c ⟨⟩; simp), read_of_step hclose]
  | @nextItem v items text more rest h hmore ih ihmore =>
    intro before stack s hs
    have hcomma : step ⟨.next, .array (v :: before) :: stack⟩ ',' =
        some ⟨.value, .array (v :: before) :: stack⟩ := rfl
    rw [ih (.array before :: stack) _ rfl (by rintro c ⟨⟩; simp), read_of_step hcomma]
    refine ihmore _ stack s ?_
    rw [List.reverse_cons, List.append_assoc]
    exact hs
  | @member v text key colon inner rest letters hbefore hkey hcolon h ih =>
    intro before stack hrest
    have hquote : step ⟨.key, .object before :: stack⟩ '"' =
        some ⟨.text true {} .plain, .object before :: stack⟩ := rfl
    have hcomplete : completeText true (letters.map String.ofList) (.object before :: stack) =
        some ⟨.colon, .member before (letters.map String.ofList) :: stack⟩ := rfl
    have hstep : step ⟨.colon, .member before (letters.map String.ofList) :: stack⟩ ':' =
        some ⟨.value, .member before (letters.map String.ofList) :: stack⟩ := rfl
    rw [read_blanks (passesBlanks_key _) hbefore, read_string hquote hkey, hcomplete,
      Option.bind_some, read_blanks (passesBlanks_colon _) hcolon, read_of_step hstep]
    exact ih _ _ rfl hrest
  | @lastMember m text rest h ih =>
    intro before stack s hs
    have hclose : step ⟨.next, .object (m :: before) :: stack⟩ '}' = some s := by
      rw [← hs, ← List.reverse_cons]
      rfl
    rw [ih before stack (by rintro c ⟨⟩; simp), read_of_step hclose]
  | @nextMember m members text more rest h hmore ih ihmore =>
    intro before stack s hs
    have hcomma : step ⟨.next, .object (m :: before) :: stack⟩ ',' =
        some ⟨.key, .object (m :: before) :: stack⟩ := rfl
    rw [ih before stack (by rintro c ⟨⟩; simp), read_of_step hcomma]
    refine ihmore _ stack s ?_
    rw [List.reverse_cons, List.append_assoc]
    exact hs

end Reader

/-- Every JSON text is read for the value that it stands for. -/
theorem parse?_of_isText {v : Json} {text : String} (h : v.IsText text) : parse? text = some v :=
  Reader.reads_of_writes h [] ⟨.done v, []⟩ rfl nofun

end LayerCanvas.Json
