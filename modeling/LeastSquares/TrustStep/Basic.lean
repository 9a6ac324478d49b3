import LeastSquares.Config.Basic
import LeastSquares.Packed.Cholesky
import LeastSquares.Packed.SmallestSingular
import LeastSquares.State

namespace LeastSquares

variable {α : Type} {p : Nat}

/-- A factorization `L Lᵀ = H + parameter` and the step it gave. -/
structure Factored (α : Type) (p : Nat) where
  parameter : α
  factor : Lower α p
  step : Vector α p
  length : α

/-- What one step leaves for the next one with the same model and another radius. -/
structure StepMemory (α : Type) (p : Nat) where
  /-- Shifts tried for the current model, negative before its first step. -/
  count : Int
  parameter : α
  radius : α
  /-- The parameter lies between `low` and `high`. -/
  low : α
  high : α
  /-- Bounds on the eigenvalues. -/
  circles : Option (α × α)
  newtonSlope : α
  newtonLength : α
  newtonReduction : α
  gradientNorm : α
  newton : Option (Vector α p)
  last : Option (Factored α p)

namespace StepMemory

def isFresh (m : StepMemory α p) : Bool := m.count < 0

def iterations (m : StepMemory α p) : Nat := m.count.toNat

variable [Scalar α]

def new : StepMemory α p := ⟨-1, 0, 0, 0, 0, none, 0, 0, 0, 0, none, none⟩

/-- Forgets the model. The parameter and the radius stay, as a guess for the next one, which
may have another order. -/
def reset {q : Nat} (m : StepMemory α p) : StepMemory α q :=
  { new with
    parameter := m.parameter
    radius := m.radius
    low := m.low
    high := m.high
    gradientNorm := m.gradientNorm }

def widen (m : StepMemory α p) : StepMemory α p :=
  if m.high ≤ m.low then { m with high := 2 * m.low + 1 / 1000 } else m

def raiseLow (m : StepMemory α p) (v : α) : StepMemory α p := { m with low := max m.low v }

end StepMemory

/-- Limits are kept in words of 32 bits with a sign. -/
def word (k : Int) : Int := k.bmod 4294967296

/-- A step to be found: least `g·s + s·Hs/2` within the radius, all scaled by `d`. -/
structure StepTask (α : Type) (p : Nat) where
  hessian : Symmetric α p
  gradient : Vector α p
  d : Vector α p
  radius : α
  /-- How far the length may be below and above the radius. -/
  shortBy : α
  longBy : α
  /-- The relative loss allowed to a step along a direction of no curvature. -/
  loss : α
  limit : Int
  /-- After so many shifts the step is given up. -/
  ceiling : Int
  largestEntry : α

variable [Scalar α]

def StepTask.ofModel (h : Symmetric α p) (g d : Vector α p) (radius : α) (c : Config α) :
    StepTask α p :=
  let scaled := h.diagonallyScaled d
  let limit := word c.hebdenIterationLimit
  { hessian := scaled
    gradient := overEach g d
    d
    radius
    shortBy := c.phiMin * radius
    longBy := c.phiMax * radius
    loss := 2 * c.epsilonStep / (3 * (4 * (1 + c.phiMin) * (2 + 1) + 2 + 2))
    limit
    ceiling := word (2 * limit)
    largestEntry := scaled.maxAbs }

def leastOf (l : List α) : Option α :=
  l.foldl (fun m v => match m with
    | none => if Scalar.isNaN v then none else some v
    | some m => some (min m v)) none

def greatestOf (l : List α) : Option α :=
  l.foldl (fun m v => match m with
    | none => if Scalar.isNaN v then none else some v
    | some m => some (max m v)) none

def Symmetric.circleRadius (h : Symmetric α p) (i : Fin p) : α :=
  sumOver ((List.finRange p).filter (· ≠ i)) fun j => Scalar.abs (h.get i j)

/-- The Gershgorin circles hold the spectrum. Where no circle has a number for its end, the
spectrum is held by nothing, and the bounds are infinite. -/
def Symmetric.gershgorin (h : Symmetric α p) : α × α :=
  ((leastOf ((List.finRange p).map fun i => h.get i i - h.circleRadius i)).getD (1 / 0),
    (greatestOf ((List.finRange p).map fun i => h.get i i + h.circleRadius i)).getD (-(1 / 0)))

end LeastSquares
