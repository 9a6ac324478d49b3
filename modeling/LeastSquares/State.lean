import LeastSquares.Sum

namespace LeastSquares

/-- The quadratic model a step is computed from: `JᵀJ`, or `JᵀJ + S` with what secants tell of
the second derivatives. -/
inductive Model where
  | gaussNewton
  | augmented
deriving DecidableEq

def Model.other : Model → Model
  | gaussNewton => augmented
  | augmented => gaussNewton

def Model.name : Model → String
  | gaussNewton => "GaussNewton"
  | augmented => "Augmented"

structure Iterate (α : Type) (p : Nat) where
  x : Vector α p
  /-- Where the iteration started. -/
  x₀ : Vector α p
  f : α
  f₀ : α
  d : Vector α p
  radius : α
  model : Model
  /-- How many models an iteration may try. -/
  stageLimit : Int32
  /-- The last trial could not be evaluated. -/
  oversized : Bool

/-- A step and what its model says of it. -/
structure Trial (α : Type) (p : Nat) where
  step : Vector α p
  length : α
  slope : α
  reduction : α
  /-- The reduction of the whole Newton step, or zero. -/
  newtonReduction : α
  /-- The Marquardt parameter, negated for a step along a direction of no curvature. -/
  parameter : α
  /-- The length of the whole Newton step, or minus a lower bound on the parameter. -/
  newtonLength : α

def Trial.zero {α : Type} [Scalar α] (p : Nat) : Trial α p :=
  ⟨Vector.replicate p 0, 0, 0, 0, 0, 0, 0⟩

end LeastSquares
