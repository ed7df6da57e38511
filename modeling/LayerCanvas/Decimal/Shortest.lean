import LayerCanvas.Decimal.Numeral

/-!
The fewest decimal digits that identify a binary floating-point number. A finite float stands for
all the reals that round to it, an interval around its value whose ends belong to it when the
significand is even. For one, two, three digits and so on, the two neighbours of the value on that
decimal grid are tried, in exact arithmetic; the first grid with a neighbour inside the interval
gives the digits, and of two neighbours inside it the nearer one is taken.
-/

set_option autoImplicit false
set_option relaxedAutoImplicit false

namespace LayerCanvas.Decimal

open Float.Model (Format)

/-- A positive number together with the interval of the reals that round to it. All three are
multiples of one unit, which is `1 / unit`. -/
structure Reach where
  value : Nat
  low : Nat
  high : Nat
  /-- How many units make one. -/
  unit : Nat
  /-- Whether the ends of the interval belong to it. -/
  closed : Bool

/-- Which of two equally near neighbours is taken. -/
inductive Tie
  | even
  | up
  deriving DecidableEq

/-- Digits `d₁d₂…` with the exponent of ten of the first one, for the number `d₁.d₂… · 10 ^ lead`.
-/
structure Digits where
  digits : List Digit
  lead : Int
  deriving DecidableEq

namespace Reach

/-- The interval around `significand · 2 ^ exponent`. It reaches half a step of the format to each
side, and only a quarter below a power of two, where the steps below are half as wide. -/
def ofFinite (format : Format) (significand : Nat) (exponent : Int) : Reach :=
  let below :=
    if significand = 1 <<< format.mantissaBitsWithoutImplicit ∧ format.minExponent < exponent then 1
    else 2
  let scale := 1 <<< (exponent - 2).toNat
  { value := 4 * significand * scale
    low := (4 * significand - below) * scale
    high := (4 * significand + 2) * scale
    unit := 1 <<< (2 - exponent).toNat
    closed := significand % 2 == 0 }

/-- The same reach measured in steps of `10 ^ k`. -/
def inSteps (r : Reach) (k : Int) : Reach :=
  let up := tenTo (-k).toNat
  { r with
    value := r.value * up
    low := r.low * up
    high := r.high * up
    unit := r.unit * tenTo k.toNat }

/-- The largest `k` with `10 ^ k` at most the value. The binary exponent gives it up to one. -/
def lead (r : Reach) : Int :=
  let guess : Int := ((r.value.log2 : Int) - r.unit.log2) * 30103 / 100000
  let atLeast (k : Int) : Bool := r.unit * tenTo k.toNat ≤ r.value * tenTo (-k).toNat
  if atLeast (guess + 1) then guess + 1 else if atLeast guess then guess else guess - 1

/-- Whether a whole number lies in the interval. -/
def contains (r : Reach) (n : Nat) : Bool :=
  if r.closed then r.low ≤ n * r.unit && n * r.unit ≤ r.high
  else r.low < n * r.unit && n * r.unit < r.high

/-- The whole number nearest to the value among those of its two neighbours that lie in the
interval. -/
def neighbour? (r : Reach) (tie : Tie) : Option Nat :=
  let below := r.value / r.unit
  match r.contains below, r.contains (below + 1) with
  | true, true =>
    match compare (2 * r.value) ((2 * below + 1) * r.unit) with
    | .lt => some below
    | .gt => some (below + 1)
    | .eq => some (if tie = .even ∧ below % 2 = 0 then below else below + 1)
  | true, false => some below
  | false, true => some (below + 1)
  | false, false => none

/-- The neighbour of the value on the grid of `count` digits from the exponent `lead` down, if one
lies in the interval. -/
def digits? (r : Reach) (tie : Tie) (lead : Int) (count : Nat) : Option Digits :=
  (r.inSteps (lead - count + 1)).neighbour? tie |>.map fun n ↦
    if n = tenTo count then ⟨[.one], lead + 1⟩ else ⟨Digit.last count n, lead⟩

/-- The fewest digits that identify the value. Seventeen are always enough for a double. -/
def shortest (r : Reach) (tie : Tie) : Digits :=
  let lead := r.lead
  ((List.range 17).findSome? fun i ↦ r.digits? tie lead (i + 1)).getD ⟨[.zero], 0⟩

end Reach

end LayerCanvas.Decimal
