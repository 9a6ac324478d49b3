import LeastSquares.Decimal.Layout
import LeastSquares.Report
import LeastSquares.Text.Table

namespace LeastSquares

/-- What a summary tells of a fit. -/
structure Summary (α : Type) (p : Nat) where
  outcome : Outcome
  iterations : Nat
  functionEvals : Nat
  gradientEvals : Nat
  objective : α
  chiSquared : α
  model : Model
  covariance : CovarianceStatus α p

variable {α : Type} {p : Nat}

def Report.summary (r : Report α p) : Summary α p :=
  ⟨r.outcome, r.iterations, r.functionEvals, r.gradientEvals, r.objective, r.chiSquared, r.model,
    r.covariance⟩

def CovarianceStatus.describe : CovarianceStatus α p → String
  | notRequested => "not requested"
  | computed _ => "computed"
  | notComputed r => "not computed (" ++ r.name ++ ")"

def Summary.table (s : Summary Float p) : Table where
  rows :=
    [("key", "value"),
     ("outcome", s.outcome.name ++ s!" ({s.outcome.code})"),
     ("iterations", toString s.iterations),
     ("function evaluations", toString s.functionEvals),
     ("gradient evaluations", toString s.gradientEvals),
     ("f", Layout.scientific.write s.objective),
     ("chi squared", Layout.scientific.write s.chiSquared),
     ("model", s.model.name),
     ("covariance", s.covariance.describe)]

end LeastSquares
