import LeastSquares.Error
import LeastSquares.Config.Validation
import LeastSquares.Fit.Iteration
import LeastSquares.Fit.Step

namespace LeastSquares

variable {α σ : Type} {n p : Nat} [Geometry α]

namespace Setup

variable (s : Setup α σ p)

def iterate (r : Run α σ n p) : Run α σ n p × Option Outcome :=
  let r := { r with iterations := r.iterations + 1 }
  let g := r.base.gradient
  let f := r.base.jacobian.pivotedQr 0
  s.stepLoop g f.normalMatrix ((r.rankWarning f).beginIteration s.config g)

/-- Iterations until one of them has an outcome. -/
def runFor : Nat → Run α σ n p → Run α σ n p × Outcome
  | 0, r => (r, .iterationLimit)
  | k + 1, r =>
    match s.iterate r with
    | (r, some o) => (r, o)
    | (r, none) => runFor k r

/-- Residuals at `x` that are known from an earlier evaluation. -/
def knownResiduals? (r : Run α σ n p) (x : Vector α p) : Option (Vector α n) :=
  if x == r.base.x then some r.base.residuals
  else if x == r.best.x then some r.best.residuals
  else (r.trials.find? fun t => t.1 == x).map Prod.snd

/-- The last point, or the last one with a Jacobian if the last cannot be evaluated. -/
def finalPoint (r : Run α σ n p) : Run α σ n p × Vector α p × Vector α n :=
  let x := r.search.iterate.x
  match knownResiduals? r x with
  | some v => (r, x, v)
  | none =>
    let (answer, account) := s.problem.countedResiduals n x r.account
    let r := { r with account }
    match answer with
    | .ok v => (r, x, v)
    | .error e => (r.warn (.finalPoint e), r.base.x, r.base.residuals)

def finalJacobian (r : Run α σ n p) (x : Vector α p) :
    Run α σ n p × Except Failure (Dense α n p) :=
  if x == r.base.x then (r, .ok r.base.jacobian)
  else
    let (answer, account) := s.problem.countedLinearization n x r.account
    ({ r with account }, answer.map Prod.snd)

def finalCovariance (o : Outcome) (r : Run α σ n p) (x : Vector α p) (v : Vector α n) :
    Run α σ n p × CovarianceStatus α p :=
  match s.config.covariance with
  | none => (r, .notRequested)
  | some request =>
    if !o.allowsCovariance then (r, .notComputed .notConverged)
    else
      match s.finalJacobian r x with
      | (r, .error e) => (r.warn (.solutionJacobian e), .notComputed .callbackFailed)
      | (r, .ok j) =>
        let (status, account) :=
          covariance s.problem (Linearized.solution ⟨x, v, j⟩) r.search.iterate.d request s.config
            r.account
        let r := { r with account }
        match status with
        | .notComputed reason => (r.warn (.covariance reason), status)
        | _ => (r, status)

def finish (r : Run α σ n p) (o : Outcome) : Report α p × σ :=
  let (r, x, v) := s.finalPoint r
  let (r, status) := s.finalCovariance o r x v
  let f := objective v
  ({ params := x
     outcome := o
     iterations := r.iterations
     functionEvals := r.account.functionEvals
     gradientEvals := r.account.gradientEvals
     objective := f
     chiSquared := 2 * f
     observations := n
     residuals := v
     scale := r.search.iterate.d
     model := r.search.iterate.model
     covariance := status
     warnings := s.config.shown r.warnings }, r.account.state)

end Setup

def Run.start (c : Config α) (l : Linearized α n p) (state : σ) : Run α σ n p :=
  let f := objective l.residuals
  { account := ⟨state, 1, 1⟩
    iterations := 0
    search := .start l.x f (c.scaleMode.initial p) c.initialTrustRadius
    memory := .new
    memoryModel := .gaussNewton
    base := l
    secant := .zeros p
    trials := []
    best := ⟨l.x, l.residuals, f⟩
    previous := none
    warnings := [] }

/-- What can be told of the input before anything is evaluated. -/
def checkInput (initial : Vector α p) (lower upper : Option (Array (Scalar.Side α)))
    (c : Config α) : Except (FitError α) (Option (Bounds α p)) := do
  if p = 0 then throw .noParameters
  c.validate p
  match (List.finRange p).find? fun i => !Scalar.isFinite initial[i] with
  | some i => throw (.nonFiniteStart i)
  | none => Bounds.make p lower upper

/-- The first evaluation fixes how many residuals there are. -/
def firstPoint (x : Vector α p) (e : Evaluation α) :
    Except (FitError α) ((n : Nat) × Linearized α n p) := do
  let n := e.residuals.size
  if n < p then throw (.tooFewResiduals n p)
  match e.jacobian with
  | none => throw (.initialEvaluation .noJacobian)
  | some j =>
    if j.rows ≠ n then throw (.dimension .jacobianRows n j.rows)
    match j.shaped? n p with
    | none => throw (.dimension .jacobianColumns p j.cols)
    | some j =>
      let l : Linearized α n p := ⟨x, e.residuals.toVector, j⟩
      if Scalar.isFinite (objective l.residuals) ∧ j.all Scalar.isFinite then return ⟨n, l⟩
      else throw (.initialEvaluation .notFinite)

/-- Looks for parameters with the least sum of squared residuals, from `initial` on and inside
the bounds. Only input that makes a fit impossible is an error. -/
def fit (P : Problem α σ p) (initial : Vector α p) (lower upper : Option (Array (Scalar.Side α)))
    (c : Config α) (state : σ) : Except (FitError α) (Report α p) × σ :=
  match checkInput initial lower upper c with
  | .error e => (.error e, state)
  | .ok bounds =>
    let x := (bounds.map (·.project initial)).getD initial
    match P.evaluate x .jacobian state with
    | (.error e, state) => (.error (.initialEvaluation e), state)
    | (.ok e, state) =>
      match firstPoint x e with
      | .error e => (.error e, state)
      | .ok ⟨_, l⟩ =>
        let s : Setup α σ p := ⟨P, bounds, c⟩
        let (r, o) := s.runFor c.maxIterations (.start c l state)
        let (report, state) := s.finish r o
        (.ok report, state)

end LeastSquares
