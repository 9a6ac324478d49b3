import LeastSquares.Sum

namespace LeastSquares

variable {α : Type} [Scalar α] {n : Nat}

def sqrtTiny : α := Scalar.sqrt Scalar.tiny

/-- Squares of components, apart by size: those of large and of small components are held
relative to the largest of their kind. -/
structure Squares (α : Type) where
  large : α
  middle : α
  small : α
  largeMax : α
  smallMax : α

def Squares.add (giant dwarf : α) (s : Squares α) (x : α) : Squares α :=
  let a := Scalar.abs x
  if giant ≤ a ∨ a ≤ dwarf then
    -- Too large or too small to be squared as it is: only its ratio to the largest one so far is.
    if dwarf < a then
      if s.largeMax < a then
        { s with large := 1 + s.large * square (s.largeMax / a), largeMax := a }
      else { s with large := s.large + square (a / s.largeMax) }
    else if s.smallMax < a then
      { s with small := 1 + s.small * square (s.smallMax / a), smallMax := a }
    else if a == 0 then s
    else { s with small := s.small + square (a / s.smallMax) }
  else { s with middle := s.middle + a * a }

def Squares.root (s : Squares α) : α :=
  if s.large != 0 then
    s.largeMax * Scalar.sqrt (s.large + s.middle / s.largeMax / s.largeMax)
  else if s.middle != 0 then
    if s.smallMax ≤ s.middle then
      Scalar.sqrt (s.middle * (1 + s.smallMax / s.middle * (s.smallMax * s.small)))
    else Scalar.sqrt (s.smallMax * (s.middle / s.smallMax + s.smallMax * s.small))
  else s.smallMax * Scalar.sqrt s.small

/-- From here on a component is large: no sum of `n` squares below it can overflow. -/
def giant (n : Nat) : α := Scalar.sqrt Scalar.huge / (n : α)

def squares (v : Vector α n) : Squares α :=
  v.foldl (Squares.add (giant n) sqrtTiny) ⟨0, 0, 0, 0, 0⟩

/-- The Euclidean norm, computed without a square that overflows or underflows. -/
def safeNorm (v : Vector α n) : α :=
  if n = 0 then 0
  else match v.find? Scalar.isNaN with
    | some x => Scalar.abs x
    | none => (squares v).root

def Counts (cutoff a b : α) : Prop :=
  1 < max (Scalar.abs a) (Scalar.abs b) ∨
    ¬ max (Scalar.abs a) (Scalar.abs b) < cutoff ∧ ¬ Scalar.abs (a / cutoff * b) < cutoff

instance (cutoff a b : α) : Decidable (Counts cutoff a b) :=
  inferInstanceAs (Decidable (_ ∨ _))

/-- The inner product without the terms that do not count. -/
def countedDot (cutoff : α) (x y : Vector α n) : α :=
  Fin.foldl n (fun s i => if Counts cutoff x[i] y[i] then s + x[i] * y[i] else s) 0

/-- The inner product without the terms that would underflow. -/
def guardedDot (x y : Vector α n) : α := countedDot sqrtTiny x y

/-- How lengths and angles are measured, beside the plain arithmetic. Doubles need the
guarded forms; where nothing overflows the textbook ones will do. -/
class Geometry (α : Type) extends Scalar α where
  norm : {n : Nat} → Vector α n → α
  inner : {n : Nat} → Vector α n → Vector α n → α

instance : Geometry Float where
  norm := safeNorm
  inner := guardedDot

/-- Scaled by `d`, the largest change of a component against the largest sum of sizes. -/
def relativeStep (d x x₀ : Vector α n) : α :=
  let change : α := Fin.foldl n (fun m i => max m (Scalar.abs (d[i] * (x[i] - x₀[i])))) 0
  let size : α := Fin.foldl n (fun m i => max m (d[i] * (Scalar.abs x[i] + Scalar.abs x₀[i]))) 0
  if 0 < size then change / size else 0

/-- A factor whose smallest singular value, squared, is at most this fraction of the largest
entry counts as singular. -/
def singularFactor : α := 50 * Scalar.epsilon

/-- A pivot at most this fraction of the longest column ends a factorization. -/
def rankTolerance : α := 1 / 100 * Scalar.sqrt (999 / 1000 * Scalar.epsilon)

end LeastSquares
