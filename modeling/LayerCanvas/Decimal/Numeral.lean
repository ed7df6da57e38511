/-!
Decimal numerals as they are written: an optional minus sign, the digits before the point, the
digits after it, and an exponent of ten. A numeral keeps its digits and not its value, because the
same number can be written in many ways and reading it depends on how it is written.
-/

set_option autoImplicit false
set_option relaxedAutoImplicit false

namespace LayerCanvas

/-- A power of ten. -/
def tenTo (k : Nat) : Nat := Nat.pow 10 k

/-- A decimal digit. -/
abbrev Digit := Fin 10

namespace Digit

/-- The digit nought. -/
def zero : Digit := ⟨0, by decide⟩

/-- The digit one. -/
def one : Digit := ⟨1, by decide⟩

/-- The character that writes a digit. -/
def char (d : Digit) : Char := Char.ofNat (48 + d.val)

/-- The digit that a character writes, if it is one of the ten. -/
def ofChar? (c : Char) : Option Digit :=
  if h : 48 ≤ c.toNat ∧ c.toNat < 58 then some ⟨c.toNat - 48, by omega⟩ else none

theorem ofChar?_char (d : Digit) : ofChar? d.char = some d := by
  revert d; decide

/-- The number that a list of digits writes. -/
def value (ds : List Digit) : Nat := ds.foldl (fun n d ↦ 10 * n + d.val) 0

/-- The last `count` digits of a natural number, leading zeros included. -/
def last (count n : Nat) : List Digit :=
  (List.range count).map fun i ↦ ⟨n / tenTo (count - 1 - i) % 10, Nat.mod_lt _ (by decide)⟩

/-- The digits of a natural number, without leading zeros. -/
def ofNat (n : Nat) : List Digit := (last (n.log2 / 3 + 1) n).dropWhile (· == zero)

end Digit

/-- The power of ten of a numeral: its sign and its digits. -/
structure Exponent where
  negative : Bool
  digits : List Digit
  deriving DecidableEq

/-- A decimal number as it is written. -/
structure Numeral where
  negative : Bool
  whole : List Digit
  fraction : List Digit := []
  exponent : Option Exponent := none
  deriving DecidableEq

namespace Numeral

/-- The characters of a numeral. The sign of an exponent is always written. -/
def chars (n : Numeral) : List Char :=
  (if n.negative then ['-'] else []) ++ n.whole.map Digit.char ++
    (if n.fraction = [] then [] else '.' :: n.fraction.map Digit.char) ++
    match n.exponent with
    | none => []
    | some e => 'e' :: (if e.negative then '-' else '+') :: e.digits.map Digit.char

/-- A natural number as a numeral. -/
def ofNat (n : Nat) : Numeral :=
  { negative := false, whole := if n = 0 then [.zero] else Digit.ofNat n }

end Numeral

end LayerCanvas
