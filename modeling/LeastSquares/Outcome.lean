namespace LeastSquares

/-- How a fit ended. -/
inductive Outcome where
  | xConverged
  | relFuncConverged
  | bothConverged
  | absFuncConverged
  | singularConverged
  | falseConverged
  | functionEvalLimit
  | iterationLimit
  | userStop
  | badInput
deriving DecidableEq

namespace Outcome

def all : List Outcome :=
  [xConverged, relFuncConverged, bothConverged, absFuncConverged, singularConverged,
    falseConverged, functionEvalLimit, iterationLimit, userStop, badInput]

def name : Outcome → String
  | xConverged => "XConverged"
  | relFuncConverged => "RelFuncConverged"
  | bothConverged => "BothConverged"
  | absFuncConverged => "AbsFuncConverged"
  | singularConverged => "SingularConverged"
  | falseConverged => "FalseConverged"
  | functionEvalLimit => "FunctionEvalLimit"
  | iterationLimit => "IterationLimit"
  | userStop => "UserStop"
  | badInput => "BadInput"

def code : Outcome → Nat
  | xConverged => 7
  | relFuncConverged => 8
  | bothConverged => 9
  | absFuncConverged => 10
  | singularConverged => 11
  | falseConverged => 12
  | badInput => 13
  | functionEvalLimit => 14
  | iterationLimit => 15
  | userStop => 16

/-- The parameters are a minimizer, though perhaps a singular one. -/
def wasSuccessful : Outcome → Bool
  | xConverged | relFuncConverged | bothConverged | absFuncConverged | singularConverged => true
  | _ => false

def allowsCovariance (o : Outcome) : Bool := o.wasSuccessful && o ≠ singularConverged

end Outcome

end LeastSquares
