import LeastSquares.Assess.Run
import LeastSquares.Bounds
import LeastSquares.Covariance
import LeastSquares.Scale
import LeastSquares.Secant
import LeastSquares.TrustStep.Run

namespace LeastSquares

/-- What an accepted step leaves for the next iteration. -/
structure Accepted (α : Type) (n p : Nat) where
  x : Vector α p
  gradient : Vector α p
  jacobian : Dense α n p
  d : Vector α p
  normal : Symmetric α p
  /-- The Hessian the step was computed with. -/
  hessian : Symmetric α p
  verdict : Verdict
  radiusFactor : α
  length : α

structure Evaluated (α : Type) (n p : Nat) where
  x : Vector α p
  residuals : Vector α n
  f : α

/-- What stays the same during a fit. -/
structure Setup (α σ : Type) [Scalar α] (p : Nat) where
  problem : Problem α σ p
  bounds : Option (Bounds α p)
  config : Config α

structure Run (α σ : Type) (n p : Nat) where
  account : Account σ
  iterations : Nat
  search : Search α p
  memory : StepMemory α p
  /-- The model the memory belongs to. -/
  memoryModel : Model
  /-- Where the Jacobian was last evaluated. -/
  base : Linearized α n p
  /-- The part of the Hessian that secants tell of. -/
  secant : Symmetric α p
  /-- The trials of this iteration, the latest one first. -/
  trials : List (Vector α p × Vector α n)
  best : Evaluated α n p
  previous : Option (Accepted α n p)
  warnings : List Warning

namespace Run

variable {α σ : Type} {n p : Nat}

def warn (r : Run α σ n p) (w : Warning) : Run α σ n p := { r with warnings := r.warnings ++ [w] }

def moveTo (r : Run α σ n p) (x : Vector α p) (f : α) : Run α σ n p :=
  { r with search := { r.search with iterate := { r.search.iterate with x, f } } }

def setRadius (r : Run α σ n p) (radius : α) : Run α σ n p :=
  { r with search := { r.search with iterate := { r.search.iterate with radius } } }

def setModel (r : Run α σ n p) (model : Model) : Run α σ n p :=
  { r with search := { r.search with iterate := { r.search.iterate with model } } }

variable [Scalar α]

def modelHessian (r : Run α σ n p) (normal : Symmetric α p) : Model → Symmetric α p
  | .gaussNewton => normal
  | .augmented => normal.add r.secant

def hessian (r : Run α σ n p) (normal : Symmetric α p) : Symmetric α p :=
  r.modelHessian normal r.search.iterate.model

/-- The length of the trial, or the radius if it has none. -/
def reach (r : Run α σ n p) : α :=
  if 0 < r.search.trial.length then r.search.trial.length else r.search.iterate.radius

end Run

end LeastSquares
