import LeastSquares.Fit.Basic

namespace LeastSquares

namespace Run

variable {α σ : Type} {n p : Nat} [Geometry α]

def rankWarning (r : Run α σ n p) (f : PivotedQr α n p) : Run α σ n p :=
  match f.status with
  | .fullRank => r
  | .deficient k => r.warn (.rankDeficient r.iterations k f.rank)
  | .underflow k => r.warn (.underflow r.iterations k)

/-- The factor on the radius after a step. Where the verdict left it to the new gradient, a
model that foretold it well lets the radius grow. -/
def nextFactor (c : Config α) (a : Accepted α n p) (g : Vector α p) (misfit : α) : α :=
  if a.verdict = .acceptByGradient then
    if misfit ≤ c.tuner4 * Geometry.norm (overEach g a.d) then c.increaseFactor else 1
  else a.radiusFactor

/-- Takes the other model if it would have foretold the gradient much better, updates the
secant matrix, and sets the radius, all from the step that was accepted. -/
def learn (c : Config α) (g : Vector α p) (r : Run α σ n p) (a : Accepted α n p) : Run α σ n p :=
  let step := r.search.iterate.x - a.x
  let y := g - a.gradient
  let yStar := (r.base.jacobian.sub a.jacobian).transposeMulVec r.base.residuals
  let misfit := gradientMisfit a.hessian step y a.d
  let radius := nextFactor c a g misfit * a.length
  let other := r.search.iterate.model.other
  let better :=
    decide (gradientMisfit (r.modelHessian a.normal other) step y a.d < c.tuner5 * misfit)
  let r := if better then r.setModel other else r
  let r := { r with secant := (secantUpdate r.secant step y yStar c.cosineMin).matrix }
  -- A step of no length says nothing about the radius.
  if 0 < radius ∧ Scalar.isFinite radius then r.setRadius radius else r

def rescale (c : Config α) (first : Bool) (r : Run α σ n p) : Run α σ n p :=
  let i := r.search.iterate
  let second := match i.model with
    | .augmented => some r.secant
    | .gaussNewton => none
  { r with search := { r.search with iterate := { i with
    d := c.updateScale r.base.jacobian second first i.d
    stageLimit := if first then 1 else 2 } } }

/-- A fresh start from the current point, with the current model. -/
def openIteration (r : Run α σ n p) : Run α σ n p :=
  let model := r.search.iterate.model
  let s := r.search.beginIteration
  { r with
    search := { s with record := { s.record with bestModel := model } }
    memory := r.memory.reset
    memoryModel := model
    trials := []
    previous := none }

def beginIteration (c : Config α) (g : Vector α p) (r : Run α σ n p) : Run α σ n p :=
  match r.previous with
  | none => (r.rescale c true).openIteration
  | some a => ((learn c g r a).rescale c false).openIteration

end Run

end LeastSquares
