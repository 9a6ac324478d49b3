import LeastSquares.Dense
import LeastSquares.Failure

namespace LeastSquares

inductive Mode where
  | residuals
  | jacobian
deriving DecidableEq

structure Evaluation (α : Type) where
  residuals : Array α
  jacobian : Option (AnyDense α)

/-- A least-squares problem in `p` parameters. Its state `σ` is all that one call may leave
for the next, and nothing is promised about the answers. -/
structure Problem (α σ : Type) (p : Nat) where
  evaluate : Vector α p → Mode → σ → Except Failure (Evaluation α) × σ
  stopRequested : Nat → Vector α p → σ → Bool × σ := fun _ _ s => (false, s)

/-- A function that may fail, and may remember that it was called. -/
abbrev Callback (α σ : Type) (p : Nat) (β : Type) := Vector α p → σ → Except Failure β × σ

variable {α σ : Type} {n p : Nat}

def Problem.ofFunctions (residual : Callback α σ p (Array α))
    (jacobian : Callback α σ p (AnyDense α)) : Problem α σ p where
  evaluate x mode s :=
    match residual x s with
    | (.error e, s) => (.error e, s)
    | (.ok r, s) =>
      match mode with
      | .residuals => (.ok ⟨r, none⟩, s)
      | .jacobian =>
        match jacobian x s with
        | (.error e, s) => (.error e, s)
        | (.ok j, s) => (.ok ⟨r, some j⟩, s)

def AnyDense.shaped? (a : AnyDense α) (n p : Nat) : Option (Dense α n p) :=
  match a with
  | ⟨m, k, e⟩ => if h : m = n ∧ k = p then some (h.1 ▸ h.2 ▸ e) else none

variable [Scalar α]

def checkedResiduals (n : Nat) (r : Array α) : Except Failure (Vector α n) :=
  if h : r.size = n then
    if r.all Scalar.isFinite then .ok ⟨r, h⟩ else .error .residualsNotFinite
  else .error (.residualCount n r.size)

def checkedJacobian (n p : Nat) : Option (AnyDense α) → Except Failure (Dense α n p)
  | none => .error .noJacobian
  | some a =>
    match a.shaped? n p with
    | none => .error (.jacobianShape n p a.rows a.cols)
    | some j => if j.all Scalar.isFinite then .ok j else .error .jacobianNotFinite

namespace Problem

/-- Residuals that are `n` finite numbers; any other answer is a failure. -/
def residualsAt (P : Problem α σ p) (n : Nat) (x : Vector α p) (s : σ) :
    Except Failure (Vector α n) × σ :=
  let (e, s) := P.evaluate x .residuals s
  (e >>= fun e => checkedResiduals n e.residuals, s)

def linearizationAt (P : Problem α σ p) (n : Nat) (x : Vector α p) (s : σ) :
    Except Failure (Vector α n × Dense α n p) × σ :=
  let (e, s) := P.evaluate x .jacobian s
  (e >>= fun e => do
    let r ← checkedResiduals n e.residuals
    let j ← checkedJacobian n p e.jacobian
    return (r, j), s)

end Problem

end LeastSquares
