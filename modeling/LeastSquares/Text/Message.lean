import LeastSquares.Decimal.Layout
import LeastSquares.Error
import LeastSquares.PivotedQr
import LeastSquares.Text.Quoted

namespace LeastSquares

def ConfigFault.message : ConfigFault Float → String
  | notNonnegative f v =>
    f.name ++ " must be a finite non-negative number, got " ++ Layout.plain.write v
  | notPositive f v => f.name ++ " must be a finite positive number, got " ++ Layout.plain.write v
  | decreaseFactor => "decrease_factor must be < 1"
  | phiBand lo hi =>
    "phi band [" ++ Layout.plain.write lo ++ ", " ++ Layout.plain.write hi ++ "] is not valid"
  | limits => "evaluation and iteration limits must be positive"
  | hebdenLimit => "hebden_iteration_limit must be positive"
  | scaleEntry i => s!"scale entry {i} must be positive"
  | logLevel s => "loglevel must be debug, info, warn, error, off or none, got " ++ quoted s

def FitError.message : FitError Float → String
  | noParameters => "the parameter vector is empty"
  | tooFewResiduals n p => s!"{n} residuals cannot determine {p} parameters"
  | dimension what e f => what.name ++ s!": expected length {e}, found {f}"
  | invalidBounds i => s!"bounds of parameter {i} are empty or not numbers"
  | nonFiniteStart i => s!"initial value of parameter {i} is not finite"
  | config f => "invalid configuration: " ++ f.message
  | initialEvaluation f => "residuals cannot be evaluated at the initial point: " ++ f.reason

def RankStatus.describe : RankStatus → String
  | fullRank => "FullRank"
  | deficient k => s!"RankDeficient \x7b column: {k} \x7d"
  | underflow k => s!"Underflow \x7b column: {k} \x7d"

def bracketed (items : List String) : String := "[" ++ String.intercalate ", " items ++ "]"

def PivotedQr.describe {m n : Nat} (f : PivotedQr Float m n) : String :=
  "PivotedQr \x7b status: " ++ f.status.describe ++ s!", rank: {f.rank}\n" ++
    "r_diag: " ++ bracketed (f.sweep.diagonal.toList.map Layout.listed.write) ++ "\n" ++
    "permutation: " ++ bracketed (f.sweep.permutation.toList.map fun i => toString i.val) ++
    " \x7d\n"

end LeastSquares
