import LayerCanvas.Json.Reader
import LayerCanvas.Proofs.Decimal.WellFormed

/-!
Steps of the reader. The machine takes a text one character at a time, so what it makes of a text is
told by what it makes of the pieces: an escaped code unit, the digits of a numeral, the letters of a
word. A value is followed by the end of the text, by a blank, by a comma or by the end of a
container, and of these a numeral alone takes notice: it is complete only when the next character is
not one of its own.
-/

set_option autoImplicit false
set_option relaxedAutoImplicit false

namespace LayerCanvas.Json.Reader

/-- The value that the machine has read when it is fed the rest of a text. -/
def read (s : State) (rest : List Char) : Option Json := (rest.foldlM step s).bind finish

theorem read_cons (s : State) (c : Char) (rest : List Char) :
    read s (c :: rest) = (step s c).bind fun s ↦ read s rest := by
  simp only [read, List.foldlM_cons, Option.bind_eq_bind, Option.bind_assoc]

theorem read_of_step {s t : State} {c : Char} (h : step s c = some t) (rest : List Char) :
    read s (c :: rest) = read t rest := by
  rw [read_cons, h, Option.bind_some]

theorem step_of_complete {v : Json} {stack : List Frame} {s : State}
    (h : complete v stack = some s) (c : Char) : step s c = afterValue c s := by
  match stack, h with
  | [], rfl => rfl
  | .array _ :: _, rfl => rfl
  | .member _ _ :: _, rfl => rfl

/-! ### Strings -/

theorem read_text (isKey : Bool) (l : Letters) (phase : TextPhase) (stack : List Frame) (c : Char)
    (rest : List Char) :
    read ⟨.text isKey l phase, stack⟩ (c :: rest) =
      (stepText isKey l phase c stack).bind fun s ↦ read s rest :=
  read_cons _ c rest

section Unit

variable (isKey : Bool) (l : Letters) (stack : List Frame) (rest : List Char)

theorem read_digit {c : Char} {d : Nat} (h : hexValue? c = some d) (left value : Nat) :
    read ⟨.text isKey l (.unit (left + 2) value), stack⟩ (c :: rest) =
      read ⟨.text isKey l (.unit (left + 1) (16 * value + d)), stack⟩ rest := by
  rw [read_text, stepText, h]
  rfl

theorem read_lastDigit {c : Char} {d : Nat} (h : hexValue? c = some d) (value : Nat) :
    read ⟨.text isKey l (.unit 1 value), stack⟩ (c :: rest) =
      read ⟨.text isKey (l.pushUnit (16 * value + d)) .plain, stack⟩ rest := by
  rw [read_text, stepText, h]
  rfl

/-- An escaped code unit. -/
theorem read_unit {c₁ c₂ c₃ c₄ : Char} {d₁ d₂ d₃ d₄ : Nat} (h₁ : hexValue? c₁ = some d₁)
    (h₂ : hexValue? c₂ = some d₂) (h₃ : hexValue? c₃ = some d₃) (h₄ : hexValue? c₄ = some d₄) :
    read ⟨.text isKey l .plain, stack⟩ ('\\' :: 'u' :: c₁ :: c₂ :: c₃ :: c₄ :: rest) =
      read ⟨.text isKey (l.pushUnit (16 * (16 * (16 * (16 * 0 + d₁) + d₂) + d₃) + d₄)) .plain,
        stack⟩ rest := by
  rw [← read_lastDigit isKey l stack rest h₄, ← read_digit isKey l stack _ h₃ 0,
    ← read_digit isKey l stack _ h₂ 1, ← read_digit isKey l stack _ h₁ 2]
  rfl

end Unit

/-! ### Numerals and words -/

/-- A numeral that may end is complete at a character that is not one of its own. -/
theorem read_of_mayEnd {n : Numeral} {phase : NumeralPhase} (hphase : phase.mayEnd = true)
    {stack : List Frame} {s : State} (hs : complete (.number n) stack = some s)
    {rest : List Char} (hrest : ∀ c ∈ rest.head?, extend n phase c = none) :
    read ⟨.numeral n phase, stack⟩ rest = read s rest := by
  cases rest with
  | nil =>
    match stack, hs with
    | [], rfl => simp [read, finish, hphase]
    | .array _ :: _, rfl => rfl
    | .member _ _ :: _, rfl => rfl
  | cons c rest =>
    have hc := hrest c rfl
    rw [read_cons, read_cons, step_of_complete hs]
    simp [step, hc, hphase, hs]

theorem read_of_extend {n m : Numeral} {phase next : NumeralPhase} {c : Char}
    (h : extend n phase c = some (m, next)) (stack : List Frame) (rest : List Char) :
    read ⟨.numeral n phase, stack⟩ (c :: rest) = read ⟨.numeral m next, stack⟩ rest := by
  refine read_of_step ?_ rest
  simp only [step, h]

/-- Digits are added one by one to those that have been read. -/
theorem read_digits {stack : List Frame} {phase : NumeralPhase} (put : List Digit → Numeral)
    (h : ∀ (ds : List Digit) (d : Digit),
      extend (put ds) phase d.char = some (put (ds ++ [d]), phase))
    (ds more : List Digit) (rest : List Char) :
    read ⟨.numeral (put ds) phase, stack⟩ (more.map Digit.char ++ rest) =
      read ⟨.numeral (put (ds ++ more)) phase, stack⟩ rest := by
  induction more generalizing ds with
  | nil => simp
  | cons d more ih =>
    rw [List.map_cons, List.cons_append, read_of_extend (h ds d), ih, List.append_assoc,
      List.singleton_append]

theorem isBlank_char (d : Digit) : isBlank d.char = false := by
  revert d; decide

/-- The sign and the digits before the point. -/
theorem read_whole (negative : Bool) {first : Digit} {more : List Digit}
    (hzero : first = .zero → more = []) (stack : List Frame) (rest : List Char) :
    read ⟨.value, stack⟩
        ((if negative then ['-'] else []) ++ (first :: more).map Digit.char ++ rest) =
      read ⟨.numeral ⟨negative, first :: more, [], none⟩ (if first = .zero then .zero else .whole),
        stack⟩ rest := by
  have hfirst : read ⟨.value, stack⟩
        ((if negative then ['-'] else []) ++ first.char :: (more.map Digit.char ++ rest)) =
      read ⟨.numeral ⟨negative, [first], [], none⟩ (if first = .zero then .zero else .whole),
        stack⟩ (more.map Digit.char ++ rest) := by
    cases negative with
    | true =>
      have hminus : step ⟨.value, stack⟩ '-' = some ⟨.numeral ⟨true, [], [], none⟩ .minus, stack⟩ :=
        rfl
      rw [if_pos rfl, List.singleton_append, read_of_step hminus]
      exact read_of_extend (by simp only [extend, Digit.ofChar?_char]) _ _
    | false =>
      refine read_of_step ?_ _
      simp [step, isBlank_char, beginValue, Digit.ofChar?_char]
  rw [List.append_assoc, List.map_cons, List.cons_append, hfirst]
  split_ifs with h
  · rw [hzero h]
    rfl
  · exact read_digits (fun ds ↦ ⟨negative, ds, [], none⟩)
      (fun ds d ↦ by simp only [extend, Digit.ofChar?_char]) [first] more rest

/-- The point and the digits after it. -/
theorem read_fraction {n : Numeral} (hn : n.fraction = []) {phase : NumeralPhase}
    (hphase : phase = .zero ∨ phase = .whole) (fraction : List Digit) (stack : List Frame)
    (rest : List Char) :
    ∃ next, (next = .zero ∨ next = .whole ∨ next = .fraction) ∧
      read ⟨.numeral n phase, stack⟩
          ((if fraction = [] then [] else '.' :: fraction.map Digit.char) ++ rest) =
        read ⟨.numeral { n with fraction } next, stack⟩ rest := by
  cases fraction with
  | nil =>
    have hsame : { n with fraction := [] } = n := by rw [← hn]
    exact ⟨phase, by tauto, by rw [hsame]; rfl⟩
  | cons first more =>
    have hpoint : extend n phase '.' = some (n, .point) := by rcases hphase with rfl | rfl <;> rfl
    have hfirst :
        extend n .point first.char = some ({ n with fraction := [first] }, .fraction) := by
      simp only [extend, Digit.ofChar?_char, hn, List.nil_append]
    refine ⟨.fraction, by simp, ?_⟩
    rw [if_neg (List.cons_ne_nil _ _), List.cons_append, read_of_extend hpoint, List.map_cons,
      List.cons_append, read_of_extend hfirst]
    exact read_digits (fun fraction ↦ { n with fraction })
      (fun ds d ↦ by simp only [extend, Digit.ofChar?_char]) [first] more rest

/-- The letters of a word after the first one. -/
theorem read_word {v : Json} {stack : List Frame} {s : State} (hs : complete v stack = some s)
    (letter : Char) (more rest : List Char) :
    read ⟨.word (letter :: more) v, stack⟩ (letter :: (more ++ rest)) = read s rest := by
  induction more generalizing letter with
  | nil => exact read_of_step (by simp [step, hs]) rest
  | cons next more ih =>
    rw [read_of_step (t := ⟨.word (next :: more) v, stack⟩) (by simp [step])]
    exact ih next

end LayerCanvas.Json.Reader
