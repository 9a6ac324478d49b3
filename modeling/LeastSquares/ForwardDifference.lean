import LeastSquares.Config.Basic
import LeastSquares.Problem

namespace LeastSquares

/-- A problem known by its residuals. The Jacobian comes from one step forward along each
coordinate, of relative size `step`. -/
structure ForwardDifference (α σ : Type) (p : Nat) where
  residual : Callback α σ p (Array α)
  step : α

namespace ForwardDifference

variable {α σ : Type} {n p : Nat} [Scalar α]

def ofResidual (residual : Callback α σ p (Array α)) : ForwardDifference α σ p :=
  ⟨residual, Scalar.sqrt Scalar.epsilon⟩

def withStep? (d : ForwardDifference α σ p) (step : α) : Option (ForwardDifference α σ p) :=
  if 0 < step then some { d with step } else none

def stepRequirement : String := "finite difference step must be > 0"

def ofConfig? (residual : Callback α σ p (Array α)) (c : Config α) :
    Option (ForwardDifference α σ p) :=
  (ofResidual residual).withStep? c.fdJacobianStep

def moved (step : α) (x : Vector α p) (j : Fin p) : α := x[j] + step * max (Scalar.abs x[j]) 1

/-- Divided by the step that was really taken, which rounding may have changed. -/
def column (step : α) (x : Vector α p) (r f : Vector α n) (j : Fin p) : Vector α n :=
  (f - r).map (· / (moved step x j - x[j]))

/-- The same point goes one step ahead along each coordinate in turn, and back. -/
def columns (d : ForwardDifference α σ p) (x : Vector α p) (r : Vector α n) :
    List (Fin p) → Vector α p → Vector (Vector α n) p → σ → Except Failure (Dense α n p) × σ
  | [], _, a, s => (.ok ⟨a⟩, s)
  | j :: js, z, a, s =>
    let ahead := z.set j (moved d.step x j)
    match d.residual ahead s with
    | (.error e, s) => (.error e, s)
    | (.ok f, s) =>
      -- The coordinate is set back and not stepped back, which would be rounded.
      let back := ahead.set j x[j]
      if h : f.size = n then columns d x r js back (a.set j (column d.step x r ⟨f, h⟩ j)) s
      else (.error (.lengthChanged n f.size), s)

def evaluate (d : ForwardDifference α σ p) (x : Vector α p) (mode : Mode) (s : σ) :
    Except Failure (Evaluation α) × σ :=
  match d.residual x s with
  | (.error e, s) => (.error e, s)
  | (.ok r, s) =>
    match mode with
    | .residuals => (.ok ⟨r, none⟩, s)
    | .jacobian =>
      let zeros := Vector.replicate p (Vector.replicate _ 0)
      match d.columns x r.toVector (List.finRange p) x zeros s with
      | (.error e, s) => (.error e, s)
      | (.ok j, s) => (.ok ⟨r, some ⟨_, _, j⟩⟩, s)

def problem (d : ForwardDifference α σ p) : Problem α σ p where
  evaluate := d.evaluate

end ForwardDifference

end LeastSquares
