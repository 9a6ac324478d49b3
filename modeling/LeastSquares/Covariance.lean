import LeastSquares.Account
import LeastSquares.Packed.Cholesky
import LeastSquares.PivotedQr
import LeastSquares.Report

namespace LeastSquares

variable {α σ : Type} {n p : Nat}

/-- A point with its residuals and its Jacobian. -/
structure Linearized (α : Type) (n p : Nat) where
  x : Vector α p
  residuals : Vector α n
  jacobian : Dense α n p

def objective [Scalar α] (r : Vector α n) : α := 1 / 2 * normSq r

def Linearized.gradient [Scalar α] (l : Linearized α n p) : Vector α p :=
  l.jacobian.transposeMulVec l.residuals

/-- What a covariance is computed from. -/
structure Solution (α : Type) (n p : Nat) where
  x : Vector α p
  f : α
  gradient : Vector α p
  jacobian : Dense α n p

def Linearized.solution [Scalar α] (l : Linearized α n p) : Solution α n p :=
  ⟨l.x, objective l.residuals, l.gradient, l.jacobian⟩

namespace Covariance

variable [Geometry α]

/-- Differences are taken over the step that rounding leaves. -/
def steps (x d : Vector α p) (factor : α) : Vector α p :=
  Vector.ofFn fun i => x[i] + factor * max (Scalar.abs x[i]) (1 / d[i]) - x[i]

def moved (x h : Vector α p) (i : Fin p) : Vector α p := x.set i (x[i] + h[i]) i.isLt

/-- One point goes ahead along each coordinate in turn, and back. -/
def gradientColumns (P : Problem α σ p) (z : Solution α n p) (h : Vector α p) :
    List (Fin p) → Vector α p → Vector (Vector α p) p → Account σ →
      Except CovarianceFailure (Dense α p p) × Account σ
  | [], _, c, a => (.ok ⟨c⟩, a)
  | i :: is, x, c, a =>
    let ahead := x.set i (z.x[i] + h[i]) i.isLt
    match P.countedLinearization n ahead a with
    | (.error _, a) => (.error .callbackFailed, a)
    | (.ok (r, j), a) =>
      gradientColumns P z h is (ahead.set i z.x[i] i.isLt)
        (c.set i ((j.transposeMulVec r - z.gradient).map (· / h[i])) i.isLt) a

/-- From differences of gradients, the two halves averaged. -/
def gradientHessian (P : Problem α σ p) (z : Solution α n p) (d : Vector α p) (c : Config α)
    (a : Account σ) : Except CovarianceFailure (Symmetric α p) × Account σ :=
  match gradientColumns P z (steps z.x d c.fdGradientStep) (List.finRange p) z.x
      (Vector.replicate p (Vector.replicate p 0)) a with
  | (.error e, a) => (.error e, a)
  | (.ok m, a) => (.ok (.ofDense ((m.add m.transpose).scale (1 / 2))), a)

def singles (P : Problem α σ p) (z : Solution α n p) (h : Vector α p) :
    List (Fin p) → Vector α p → Vector α p → Account σ →
      Except CovarianceFailure (Vector α p) × Account σ
  | [], _, f, a => (.ok f, a)
  | i :: is, x, f, a =>
    let ahead := x.set i (z.x[i] + h[i]) i.isLt
    match P.countedResiduals n ahead a with
    | (.error _, a) => (.error .callbackFailed, a)
    | (.ok r, a) =>
      singles P z h is (ahead.set i z.x[i] i.isLt) (f.set i (objective r) i.isLt) a

def pairs (p : Nat) : List (Fin p × Fin p) :=
  (List.finRange p).flatMap fun i => (upTo i).map fun j => (i, j)

/-- On the diagonal the one coordinate goes ahead twice. -/
def doubles (P : Problem α σ p) (z : Solution α n p) (h f : Vector α p) :
    List (Fin p × Fin p) → Vector α p → Symmetric α p → Account σ →
      Except CovarianceFailure (Symmetric α p) × Account σ
  | [], _, s, a => (.ok s, a)
  | (i, j) :: ps, x, s, a =>
    let ahead := moved (moved x h i) h j
    match P.countedResiduals n ahead a with
    | (.error _, a) => (.error .callbackFailed, a)
    | (.ok r, a) =>
      doubles P z h f ps ((ahead.set i z.x[i] i.isLt).set j z.x[j] j.isLt)
        (s.set i j ((objective r - f[i] - f[j] + z.f) / (h[i] * h[j]))) a

/-- From second differences of the objective, over every pair of coordinates. -/
def functionHessian (P : Problem α σ p) (z : Solution α n p) (d : Vector α p) (c : Config α)
    (a : Account σ) : Except CovarianceFailure (Symmetric α p) × Account σ :=
  let h := steps z.x d c.fdFunctionStep
  match singles P z h (List.finRange p) z.x (Vector.replicate p 0) a with
  | (.error e, a) => (.error e, a)
  | (.ok f, a) => doubles P z h f (pairs p) z.x (.zeros p) a

def hessian (P : Problem α σ p) (z : Solution α n p) (d : Vector α p) (source : HessianSource)
    (c : Config α) (a : Account σ) : Except CovarianceFailure (Symmetric α p) × Account σ :=
  match source with
  | .gradientDifferences => gradientHessian P z d c a
  | .functionDifferences => functionHessian P z d c a

def inverse (h : Symmetric α p) : Except CovarianceFailure (Dense α p p) :=
  match h.cholesky with
  | .error _ => .error .hessianIndefinite
  | .ok l =>
    match l.invert with
    | .error _ => .error .hessianIndefinite
    | .ok x => .ok x.transposeTimesSelf.toDense

/-- Twice the objective for each degree of freedom. -/
def factor (z : Solution α n p) : α := 2 * z.f / (max (n - p) 1 : Nat)

def unscaled (P : Problem α σ p) (z : Solution α n p) (d : Vector α p)
    (request : CovarianceRequest) (c : Config α) (a : Account σ) :
    Except CovarianceFailure (Dense α p p) × Account σ :=
  match request.kind with
  | .inverseNormal =>
    match (z.jacobian.pivotedQr 0).normalInverse with
    | .error _ => (.error .rankDeficientJacobian, a)
    | .ok m => (.ok m.toDense, a)
  | kind =>
    let (h, a) := hessian P z d request.source c a
    (do
      let m ← h >>= inverse
      match kind with
      | .sandwich => return (m.mul (z.jacobian.transpose.mul z.jacobian)).mul m
      | _ => return m, a)

end Covariance

/-- The covariance of the parameters at a point of least squares. -/
def covariance [Geometry α] (P : Problem α σ p) (z : Solution α n p) (d : Vector α p)
    (request : CovarianceRequest) (c : Config α) (a : Account σ) :
    CovarianceStatus α p × Account σ :=
  match Covariance.unscaled P z d request c a with
  | (.error e, a) => (.notComputed e, a)
  | (.ok m, a) => (.computed (m.scale (Covariance.factor z)), a)

end LeastSquares
