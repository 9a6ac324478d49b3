import LeastSquares.Error
import LeastSquares.Length
import LeastSquares.Packed.Symmetric
import LeastSquares.State

namespace LeastSquares

open Scalar (Side side?)

/-- A box around the parameters. A side that is missing bounds nothing. -/
structure Bounds (α : Type) [Scalar α] (p : Nat) where
  lower : Option (Vector (Side α) p)
  upper : Option (Vector (Side α) p)

namespace Bounds

variable {α : Type} [Scalar α] {p : Nat}

def side (p : Nat) (what : Quantity) :
    Option (Array (Side α)) → Except (FitError α) (Option (Vector (Side α) p))
  | none => .ok none
  | some v => if h : v.size = p then .ok (some ⟨v, h⟩) else .error (.dimension what p v.size)

def floor? (b : Bounds α p) (i : Fin p) : Option α := b.lower.bind fun l => side? l[i]

def ceiling? (b : Bounds α p) (i : Fin p) : Option α := b.upper.bind fun u => side? u[i]

def emptyAt (b : Bounds α p) (i : Fin p) : Bool :=
  match b.floor? i, b.ceiling? i with
  | some l, some u => Scalar.isNaN l || Scalar.isNaN u || decide (u < l)
  | some l, none => Scalar.isNaN l
  | none, some u => Scalar.isNaN u
  | none, none => false

def make (p : Nat) (lower upper : Option (Array (Side α))) :
    Except (FitError α) (Option (Bounds α p)) :=
  if lower.isNone && upper.isNone then .ok none
  else do
    let l ← side p .lowerBounds lower
    let u ← side p .upperBounds upper
    let b : Bounds α p := ⟨l, u⟩
    match (List.finRange p).find? b.emptyAt with
    | some i => .error (.invalidBounds i)
    | none => .ok (some b)

def clampLow (l x : α) : α := if x < l then l else x

def clampHigh (u x : α) : α := if u < x then u else x

def project (b : Bounds α p) (x : Vector α p) : Vector α p :=
  Vector.ofFn fun i =>
    let y := (b.floor? i).elim x[i] fun l => clampLow l x[i]
    (b.ceiling? i).elim y fun u => clampHigh u y

end Bounds

variable {α : Type} {p : Nat} [Geometry α]

/-- What a model says of another step than its own. A step of length zero counts as a whole
Newton step. -/
def Trial.rescored (t : Trial α p) (g : Vector α p) (h : Symmetric α p) (d step : Vector α p) :
    Trial α p :=
  let length := Geometry.norm (timesEach step d)
  let slope := dot g step
  if length == 0 then ⟨step, length, slope, 0, 0, 0, 0⟩
  else { t with step, length, slope, reduction := max (-(slope + 1 / 2 * h.quadraticForm step)) 0 }

/-- The trial for the part of the step inside the box, if the step leaves it. -/
def Bounds.constrain? (b : Bounds α p) (x₀ g : Vector α p) (h : Symmetric α p) (d : Vector α p)
    (t : Trial α p) : Option (Trial α p) :=
  let step := b.project (x₀ + t.step) - x₀
  if step == t.step then none else some (t.rescored g h d step)

end LeastSquares
