import LeastSquares.Scalar

namespace LeastSquares

inductive CovarianceKind where
  | sandwich
  | inverseHessian
  | inverseNormal
deriving DecidableEq

inductive HessianSource where
  | gradientDifferences
  | functionDifferences
deriving DecidableEq

structure CovarianceRequest where
  kind : CovarianceKind
  source : HessianSource
deriving DecidableEq

/-- The size of a code picks the kind and its sign the differences. -/
def CovarianceRequest.ofCode? (code : Int) : Option CovarianceRequest :=
  let source := if 0 < code then .gradientDifferences else .functionDifferences
  match code.natAbs with
  | 1 => some ⟨.sandwich, source⟩
  | 2 => some ⟨.inverseHessian, source⟩
  | 3 => some ⟨.inverseNormal, source⟩
  | _ => none

def CovarianceKind.code : CovarianceKind → Int
  | .sandwich => 1
  | .inverseHessian => 2
  | .inverseNormal => 3

def CovarianceRequest.code (r : CovarianceRequest) : Int :=
  match r.source with
  | .gradientDifferences => r.kind.code
  | .functionDifferences => -r.kind.code

/-- How the scale vector evolves: from the columns of the Jacobian, or not at all. Without
values a fixed scale is all ones. -/
inductive ScaleMode (α : Type) where
  | adaptive
  | fixed (values : Option (Array α))
deriving BEq

structure Config (α : Type) where
  absFuncTol : α
  relFuncTol : α
  xConvergeTol : α
  falseConvergeTol : α
  singularTol : α
  maxFunctionEvals : Nat
  maxIterations : Nat
  /-- Also the radius that the test for singular convergence asks about. -/
  initialTrustRadius : α
  /-- The length of a step may differ from the radius by these fractions of it. -/
  phiMin : α
  phiMax : α
  epsilonStep : α
  tuner1 : α
  tuner2 : α
  tuner3 : α
  tuner4 : α
  tuner5 : α
  decreaseFactor : α
  increaseFactor : α
  radfacMin : α
  radfacMax : α
  scaleDecay : α
  scaleFloor : α
  scaleReset : α
  cosineMin : α
  fdGradientStep : α
  fdFunctionStep : α
  fdJacobianStep : α
  hebdenIterationLimit : Nat
  scaleMode : ScaleMode α
  covariance : Option CovarianceRequest
  logLevel : Option String
  logToFile : Bool
deriving BEq

namespace Config

variable {α : Type} [Scalar α]

/-- The step for function differences is the cube root of `epsilon`, to sixteen digits. -/
def default : Config α where
  absFuncTol := Scalar.epsilon * Scalar.epsilon
  relFuncTol := 1 / 10000000000
  xConvergeTol := Scalar.sqrt Scalar.epsilon
  falseConvergeTol := 100 * Scalar.epsilon
  singularTol := 1 / 10000000000
  maxFunctionEvals := 200
  maxIterations := 150
  initialTrustRadius := 100
  phiMin := -(1 / 10)
  phiMax := 1 / 10
  epsilonStep := 1 / 10
  tuner1 := 1 / 10
  tuner2 := 1 / 10000
  tuner3 := 3 / 4
  tuner4 := 1 / 2
  tuner5 := 3 / 4
  decreaseFactor := 1 / 2
  increaseFactor := 2
  radfacMin := 1 / 10
  radfacMax := 4
  scaleDecay := 3 / 5
  scaleFloor := 1 / 1000000
  scaleReset := 1
  cosineMin := max (1 / 1000000) (100 * Scalar.epsilon)
  fdGradientStep := Scalar.sqrt Scalar.epsilon
  fdFunctionStep := 6055454452393343 / 1000000000000000000000
  fdJacobianStep := Scalar.sqrt Scalar.epsilon
  hebdenIterationLimit := 50
  scaleMode := .adaptive
  covariance := CovarianceRequest.ofCode? 1
  logLevel := none
  logToFile := false

/-- A setting of its own, with the values it is given. -/
inductive Setting (α : Type) [Scalar α] where
  | absFuncTol (tol : Signed α)
  | relFuncTol (tol : Signed α)
  | xConvergeTol (tol : Signed α)
  | falseConvergeTol (tol : Signed α)
  | singularTol (tol : Signed α)
  | maxFunctionEvals (limit : Nat)
  | maxIterations (limit : Nat)
  | initialTrustRadius (radius : α)
  | phiBand (low high : α)

namespace Setting

/-- The tolerance for singular convergence follows the relative one. -/
def write (c : Config α) : Setting α → Config α
  | absFuncTol t => { c with absFuncTol := t.value }
  | relFuncTol t => { c with relFuncTol := t.value, singularTol := t.value }
  | xConvergeTol t => { c with xConvergeTol := t.value }
  | falseConvergeTol t => { c with falseConvergeTol := t.value }
  | singularTol t => { c with singularTol := t.value }
  | maxFunctionEvals k => { c with maxFunctionEvals := k }
  | maxIterations k => { c with maxIterations := k }
  | initialTrustRadius r => { c with initialTrustRadius := r }
  | phiBand lo hi => { c with phiMin := lo, phiMax := hi }

/-- A tolerance is refused for its sign bit, a radius and a band for their values. -/
def allowed : Setting α → Bool
  | absFuncTol t | relFuncTol t | xConvergeTol t | falseConvergeTol t | singularTol t =>
    !t.negative
  | maxFunctionEvals k | maxIterations k => 0 < k
  | initialTrustRadius r => decide (0 < r)
  | phiBand lo hi => decide (-1 < lo ∧ lo ≤ 0 ∧ 0 ≤ hi)

def requirement : Setting α → String
  | absFuncTol _ => "abs_func_tol must be >= 0"
  | relFuncTol _ => "rel_func_tol must be >= 0"
  | xConvergeTol _ => "x_converge_tol must be >= 0"
  | falseConvergeTol _ => "false_converge_tol must be >= 0"
  | singularTol _ => "singular_tol must be >= 0"
  | maxFunctionEvals _ => "max_function_evals must be > 0"
  | maxIterations _ => "max_iterations must be > 0"
  | initialTrustRadius _ => "initial_trust_radius must be > 0"
  | phiBand _ _ => "need -1 < phi_min <= 0 <= phi_max"

end Setting

def set (c : Config α) (s : Setting α) : Except (Setting α) (Config α) :=
  if s.allowed then .ok (s.write c) else .error s

end Config

end LeastSquares
