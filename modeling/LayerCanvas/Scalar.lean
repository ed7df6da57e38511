/-!
The numbers a canvas is measured in. Positions are held in one number type and times in another,
and everything geometric is written for any type with the four operations and the comparisons,
so the same definitions run on machine numbers and can be reasoned about over the rationals.

Nothing is assumed of the operations. A machine number may be infinite, and it may fail to be a
number at all, in which case it compares with nothing, itself included; the choices below
(`larger`, `smaller`, `clamp`) say what happens then.
-/

set_option autoImplicit false
set_option relaxedAutoImplicit false

namespace LayerCanvas

/-- Numbers with the four operations and comparisons. The test `==` is the numeric one: it
identifies the two zeros of a machine type and separates a failed result from itself. -/
class Scalar (α : Type) extends Add α, Sub α, Mul α, Div α, Neg α, LT α, LE α, BEq α where
  /-- The number that stands for a natural number. -/
  ofNat : Nat → α
  /-- The strict comparison can be decided. -/
  decidableLT : DecidableLT α
  /-- The weak comparison can be decided. -/
  decidableLE : DecidableLE α

namespace Scalar

variable {α : Type} [Scalar α]

instance (priority := low) (n : Nat) : OfNat α n := ⟨Scalar.ofNat n⟩

instance (priority := low) (a b : α) : Decidable (a < b) := Scalar.decidableLT a b

instance (priority := low) (a b : α) : Decidable (a ≤ b) := Scalar.decidableLE a b

/-- Whether a value is a number, which is to say equal to itself. -/
def isNumber (a : α) : Bool := a == a

/-- Whether a value is a finite number: taking it away from itself leaves zero. -/
def isFinite (a : α) : Bool := a - a == 0

/-- The value past every number, where the type has one. -/
def infinity : α := 1 / 0

/-- Finite and greater than zero. -/
def isPositive (a : α) : Bool := isFinite a && decide (0 < a)

/-- The larger of two values. One that is not a number gives way to the other, and of two equal
ones the second is kept, which shows in the sign of a zero. -/
def larger (a b : α) : α :=
  if isNumber b then (if b < a then a else b) else a

/-- The smaller of two values, with the rules of `larger`. -/
def smaller (a b : α) : α :=
  if isNumber b then (if a < b then a else b) else a

/-- The nearest value between two bounds. What is not a number stays what it is. -/
def clamp (low high a : α) : α :=
  if a < low then low else if high < a then high else a

end Scalar

instance : Scalar Float32 where
  ofNat := Float32.ofNat
  decidableLT := inferInstance
  decidableLE := inferInstance

instance : Scalar Float where
  ofNat := Float.ofNat
  decidableLT := inferInstance
  decidableLE := inferInstance

end LayerCanvas
