namespace LeastSquares

/-- Why residuals or a Jacobian could not be had at a point. -/
inductive Failure where
  | callback (reason : String)
  | lengthChanged (before after : Nat)
  | residualCount (expected found : Nat)
  | residualsNotFinite
  | noJacobian
  | jacobianShape (expectedRows expectedCols rows cols : Nat)
  | jacobianNotFinite
  | notFinite
deriving DecidableEq

namespace Failure

def reason : Failure → String
  | callback s => s
  | lengthChanged a b => s!"residual length changed from {a} to {b}"
  | residualCount e f => s!"expected {e} residuals, got {f}"
  | residualsNotFinite => "residuals are not finite"
  | noJacobian => "no Jacobian returned"
  | jacobianShape n p r c => s!"expected a {n}x{p} Jacobian, got {r}x{c}"
  | jacobianNotFinite => "Jacobian is not finite"
  | notFinite => "residuals or Jacobian are not finite"

def message (f : Failure) : String := "evaluation failed: " ++ f.reason

end Failure

end LeastSquares
