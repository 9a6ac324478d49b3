import LeastSquares.Problem

namespace LeastSquares

/-- The state of a problem with the number of evaluations made of it, by kind. -/
structure Account (σ : Type) where
  state : σ
  functionEvals : Nat
  gradientEvals : Nat

namespace Problem

variable {α σ : Type} {p : Nat} [Scalar α]

def countedResiduals (P : Problem α σ p) (n : Nat) (x : Vector α p) (a : Account σ) :
    Except Failure (Vector α n) × Account σ :=
  let (r, s) := P.residualsAt n x a.state
  (r, { a with state := s, functionEvals := a.functionEvals + 1 })

def countedLinearization (P : Problem α σ p) (n : Nat) (x : Vector α p) (a : Account σ) :
    Except Failure (Vector α n × Dense α n p) × Account σ :=
  let (r, s) := P.linearizationAt n x a.state
  (r, { a with state := s, gradientEvals := a.gradientEvals + 1 })

end Problem

end LeastSquares
