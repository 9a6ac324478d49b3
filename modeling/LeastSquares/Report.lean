import LeastSquares.Config.Basic
import LeastSquares.Dense
import LeastSquares.Failure
import LeastSquares.Outcome
import LeastSquares.State

namespace LeastSquares

inductive CovarianceFailure where
  | notConverged
  | callbackFailed
  | hessianIndefinite
  | rankDeficientJacobian
deriving DecidableEq

def CovarianceFailure.name : CovarianceFailure → String
  | notConverged => "NotConverged"
  | callbackFailed => "CallbackFailed"
  | hessianIndefinite => "HessianIndefinite"
  | rankDeficientJacobian => "RankDeficientJacobian"

inductive CovarianceStatus (α : Type) (p : Nat) where
  | notRequested
  | computed (matrix : Dense α p p)
  | notComputed (reason : CovarianceFailure)

inductive Warning where
  | rankDeficient (iteration column rank : Nat)
  | underflow (iteration column : Nat)
  | trialOverflow
  | trialRejected (failure : Failure)
  | acceptedJacobian (failure : Failure)
  | finalPoint (failure : Failure)
  | solutionJacobian (failure : Failure)
  | covariance (reason : CovarianceFailure)
deriving DecidableEq

def Warning.message : Warning → String
  | rankDeficient i c r => s!"iteration {i}: Jacobian is rank deficient at column {c} (rank {r})"
  | underflow i c => s!"iteration {i}: Jacobian column {c} underflows"
  | trialOverflow => "f overflows at the trial point, shrinking the step"
  | trialRejected f => "trial point rejected: " ++ f.message
  | acceptedJacobian f => "Jacobian cannot be evaluated at the accepted point: " ++ f.message
  | finalPoint f => "final point cannot be evaluated (" ++ f.message ++ "), reporting x0"
  | solutionJacobian f => "Jacobian at the solution cannot be evaluated: " ++ f.message
  | covariance r => "covariance not computed: " ++ r.name

structure Report (α : Type) (p : Nat) where
  params : Vector α p
  outcome : Outcome
  iterations : Nat
  /-- Evaluations of residuals alone, and the first one. -/
  functionEvals : Nat
  gradientEvals : Nat
  objective : α
  chiSquared : α
  observations : Nat
  residuals : Vector α observations
  scale : Vector α p
  model : Model
  covariance : CovarianceStatus α p
  warnings : List Warning

/-- A log that lets only errors through shows no warning. -/
def Config.shown {α : Type} (c : Config α) (ws : List Warning) : List Warning :=
  if c.logLevel = some "error" then [] else ws

end LeastSquares
