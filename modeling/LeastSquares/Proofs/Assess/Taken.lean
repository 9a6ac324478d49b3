import LeastSquares.Assess.Run

namespace LeastSquares

variable {α : Type} {p : Nat}

def Verdict.Final : Verdict → Prop
  | .xConverged | .relFuncConverged | .bothConverged | .absFuncConverged | .singularConverged
  | .falseConverged => True
  | _ => False

namespace Search

variable (e : Search α p)

/-- A step is computed again, for the radius or because the last one went too far. A negated
stage is that of a model whose trial is still to be measured. -/
def Retries : Prop :=
  (e.record.stage = 1 ∨ e.record.stage = 2 ∨ e.record.stage = 3) ∧
    e.iterate.model = e.record.bestModel ∨
  e.record.stage = -1 ∧ (e.record.resume = .recompute ∧ e.iterate.model = e.record.bestModel ∨
    (e.record.resume = .acceptByGradient ∨ e.record.resume = .accept) ∧
      e.record.bestF = e.iterate.f₀) ∨
  e.record.stage = -2 ∧ (e.record.resume = .recompute ∨
    (e.record.resume = .otherOrShorter ∨ e.record.resume = .otherOrAccept) ∧
      e.iterate.model ≠ e.record.bestModel) ∨
  e.record.stage = -3 ∧ e.record.resume = .recompute

def Ready : Prop :=
  (e.iterate.stageLimit = 1 ∨ e.iterate.stageLimit = 2) ∧
    match e.verdict with
    | .acceptByGradient | .accept => True
    | .otherOrShorter | .otherOrAccept =>
      e.record.stage = 1 ∧ e.iterate.stageLimit = 2 ∧ e.iterate.model ≠ e.record.bestModel
    | .recompute => e.Retries
    | _ => False

def Opens : Prop :=
  e.verdict = .acceptByGradient ∨ e.verdict = .accept ∨
    e.verdict = .recompute ∧ e.record.stage = -1 ∧
      (e.record.resume = .acceptByGradient ∨ e.record.resume = .accept)

def recalled : Trial α p :=
  { e.trial with
    step := e.record.bestStep
    length := e.record.bestLength
    slope := e.record.bestSlope
    reduction := e.record.bestReduction }

variable [Scalar α]

structure Comparable : Prop where
  irrefl : ¬e.iterate.f₀ < e.iterate.f₀
  trial : ¬e.iterate.f₀ ≤ e.iterate.f → e.iterate.f < e.iterate.f₀
  best : ¬e.iterate.f₀ ≤ e.record.bestF → e.record.bestF < e.iterate.f₀

/-- The trial that is judged, with its objective, its point and the model held responsible. -/
inductive Taken : Trial α p → α → Vector α p → Model → Prop where
  | first : e.Opens → e.iterate.oversized = false →
      Taken e.trial e.iterate.f e.iterate.x e.iterate.model
  | better : ¬e.Opens → e.iterate.oversized = false → e.iterate.f < e.record.bestF →
      Taken e.trial e.iterate.f e.iterate.x e.iterate.model
  | worse : ¬e.Opens → e.iterate.oversized = false → ¬e.iterate.f < e.record.bestF →
      e.iterate.f₀ ≤ e.record.bestF →
      Taken e.trial e.iterate.f e.iterate.x e.record.bestModel
  | back : ¬e.Opens → e.iterate.oversized = false → ¬e.iterate.f < e.record.bestF →
      ¬e.iterate.f₀ ≤ e.record.bestF →
      Taken e.recalled e.record.bestF (e.iterate.x₀ + e.record.bestStep) e.record.bestModel
  | tooFar : ¬e.Opens → e.iterate.oversized = true → 0 < e.record.growth →
      e.iterate.f₀ ≤ e.record.bestF →
      Taken e.trial e.iterate.f e.iterate.x e.iterate.model
  | tooFarBack : ¬e.Opens → e.iterate.oversized = true → 0 < e.record.growth →
      ¬e.iterate.f₀ ≤ e.record.bestF →
      Taken e.recalled e.record.bestF (e.iterate.x₀ + e.record.bestStep) e.iterate.model

/-- Nothing but the point and the model changes in an assessment. -/
structure Framed (s : Search α p) : Prop where
  x₀ : s.iterate.x₀ = e.iterate.x₀
  f₀ : s.iterate.f₀ = e.iterate.f₀
  d : s.iterate.d = e.iterate.d
  radius : s.iterate.radius = e.iterate.radius
  stageLimit : s.iterate.stageLimit = e.iterate.stageLimit
  oversized : s.iterate.oversized = e.iterate.oversized
  /-- A first model is never exchanged. -/
  stage : s.record.stage = 1 ∧ s.iterate.model = e.iterate.model ∨
    s.record.stage = 2 ∨ s.record.stage = 3

def Moved (s : Search α p) : Prop := e.Taken s.trial s.iterate.f s.iterate.x s.iterate.model

/-- A trial that is no gain leaves the iterate where it was. -/
structure Stayed (t : Trial α p) (i : Iterate α p) (bestF : α) (bestModel : Model) : Prop where
  f : i.f = e.iterate.f₀
  x : i.x = e.iterate.x₀
  no_gain : e.iterate.f₀ ≤ bestF
  model : bestModel = i.model
  taken : ∃ x, e.Taken t bestF x i.model

def Stays (s : Search α p) : Prop :=
  e.Stayed s.trial s.iterate s.record.bestF s.record.bestModel

/-- The record holds the trial that was judged, if it is a gain. -/
def Kept (s : Search α p) : Prop :=
  e.Stays s ∨ e.Moved s ∧ s.record.bestModel = s.iterate.model ∧
    s.record.bestF = s.iterate.f ∧ s.record.bestStep = s.trial.step ∧
    s.record.bestLength = s.trial.length ∧ s.record.bestReduction = s.trial.reduction ∧
    s.record.bestSlope = s.trial.slope

/-- What each verdict means, where `kept` is to hold if there will be another trial. -/
def Ruling (c : Config α) (s : Search α p) (kept : Prop) : Verdict → Prop
  | .acceptByGradient | .accept =>
    e.Moved s ∧ c.tuner2 * s.trial.reduction < e.iterate.f₀ - s.iterate.f
  | .otherOrShorter | .otherOrAccept =>
    s.record.stage = 1 ∧ e.iterate.stageLimit = 2 ∧ kept
  | .recompute => kept
  | _ => False

/-- The trial that was judged is a gain, by itself or against what its model foretold. -/
def Falls (c : Config α) (s : Search α p) : Prop :=
  e.Moved s ∧ (s.iterate.f < e.iterate.f₀ ∨
    c.tuner2 * s.trial.reduction < e.iterate.f₀ - s.iterate.f)

/-- The iterate is at the trial that was judged, or back where it was. -/
def Placed (c : Config α) (s : Search α p) : Prop := e.Falls c s ∨ e.Stays s

def Gains (s : Search α p) : Prop :=
  e.Stays s ∨ e.Moved s ∧ s.iterate.f < e.iterate.f₀

def Recorded (c : Config α) (s : Search α p) : Prop :=
  s.record.resume = s.verdict ∧ e.Ruling c s (e.Kept s) s.verdict

/-- A trial that cannot be evaluated, after which the radius shrinks. -/
structure Shrunk (s : Search α p) : Prop where
  oversized : e.iterate.oversized = true
  iterate : s.iterate = e.iterate
  trial : s.trial = e.trial
  verdict : s.verdict = .recompute
  retries : s.Retries
  waits : s.record.stage < 0
  best : s.record.bestF = e.record.bestF ∧ s.record.bestModel = e.record.bestModel ∧
      s.record.bestStep = e.record.bestStep ∧ s.record.bestLength = e.record.bestLength ∧
      s.record.bestReduction = e.record.bestReduction ∧
      s.record.bestSlope = e.record.bestSlope ∧ ¬e.Opens ∨
    e.Opens ∧ s.record.bestF = e.iterate.f₀ ∧ s.Opens

/-- A probe is asked for, and the record holds all that it will replace. -/
structure Asks (c : Config α) (s : Search α p) : Prop where
  verdict : s.verdict = .probe
  step : s.record.bestStep = s.trial.step
  reduction : s.record.bestReduction = s.trial.reduction
  slope : s.record.bestSlope = s.trial.slope
  length : s.record.bestLength = -s.trial.length ∨
    s.record.bestLength = s.trial.length ∧ e.Ruling c s (e.Kept s) s.record.resume

def Assessed (c : Config α) (s : Search α p) : Prop :=
  e.Shrunk s ∨ e.Framed s ∧ e.Placed c s ∧
    (s.verdict.Final ∨ e.Ruling c s (e.Kept s) s.verdict ∨ e.Asks c s)

end Search

end LeastSquares
