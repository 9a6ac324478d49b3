namespace LeastSquares

/-- The numbers a fit is computed with. Nothing is assumed of the operations, so every
algorithm is one definition that runs on doubles and can be read over the reals. -/
class Scalar (α : Type) extends NatCast α, Zero α, One α, Add α, Sub α, Mul α, Div α, Neg α,
    LT α, LE α, BEq α, Max α, Min α where
  ltDecidable : ∀ a b : α, Decidable (a < b)
  leDecidable : ∀ a b : α, Decidable (a ≤ b)
  abs : α → α
  sqrt : α → α
  isNaN : α → Bool
  isFinite : α → Bool
  /-- The sign bit, which a negative zero carries too. -/
  isNegative : α → Bool
  epsilon : α
  /-- The smallest positive normal number. -/
  tiny : α
  huge : α
  /-- What may be given as a bound of a parameter: a number, or, where none is infinite, that there
  is no bound. -/
  Side : Type
  side? : Side → Option α

namespace Scalar

variable {α : Type} [Scalar α]

instance (a b : α) : Decidable (a < b) := ltDecidable a b

instance (a b : α) : Decidable (a ≤ b) := leDecidable a b

/-- Constants are quotients of natural numbers, and one division rounds each correctly. -/
instance (priority := mid) (n : Nat) : OfNat α (n + 2) := ⟨Nat.cast (OfNat.ofNat (n + 2))⟩

/-- A maximum or minimum ignores an operand that is not a number. -/
instance : Scalar Float where
  natCast := Float.ofNat
  toZero := ⟨0.0⟩
  toOne := ⟨1.0⟩
  max a b := if a.isNaN then b else if a < b then b else a
  min a b := if a.isNaN then b else if b < a then b else a
  ltDecidable := Float.decLt
  leDecidable := Float.decLe
  abs := Float.abs
  sqrt := Float.sqrt
  isNaN := Float.isNaN
  isFinite := Float.isFinite
  isNegative x := 0x8000000000000000 ≤ x.toBits
  epsilon := Float.ofBits 0x3cb0000000000000
  tiny := Float.ofBits 0x0010000000000000
  huge := Float.ofBits 0x7fefffffffffffff
  Side := Float
  side? := some

end Scalar

/-- A value and its sign bit, which tells more than the value only if that is not a number. -/
structure Signed (α : Type) [Scalar α] where
  value : α
  negative : Bool
  negative_eq : Scalar.isNaN value = false → negative = Scalar.isNegative value

/-- The given bit counts only for a value that is not a number. -/
def Signed.ofBit {α : Type} [Scalar α] (value : α) (bit : Bool) : Signed α where
  value
  negative := if Scalar.isNaN value then bit else Scalar.isNegative value
  negative_eq h := by simp [h]

end LeastSquares
