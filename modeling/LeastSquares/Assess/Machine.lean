import LeastSquares.Assess.Basic
import LeastSquares.Config.Basic
import LeastSquares.Length

namespace LeastSquares

variable {α : Type} {p : Nat}

inductive Node where
  | beginIteration
  | retryDecision
  | newModelTried
  | recomputedStep
  | checkOversize
  | shrink
  | compareWithBest
  | restoreBest
  | measureStep
  | classifyDecrease
  | trivialDecrease
  | nontrivialDecrease
  | fletcherRadius
  | falseConvergenceTest
  | goodDecrease
  | saveBest
  | keepRadius
  | resumeAfterConvergence
  | recordCode
  | convergenceTests
  | singularScreen
  | singularStepLength
  | requestProbe
  | probed
  | singularTest
  | done
deriving DecidableEq

/-- One assessment under way. -/
structure Pass (α : Type) (p : Nat) where
  search : Search α p
  /-- The factor on the next radius for having put back an earlier step. -/
  relief : α
  /-- The point judged is the last trial. -/
  current : Bool
  change : α
  threshold : α

namespace Pass

def rule (w : Pass α p) (v : Verdict) : Pass α p :=
  { w with search := { w.search with verdict := v } }

def note (w : Pass α p) (r : Record α p) : Pass α p :=
  { w with search := { w.search with record := r } }

variable (w : Pass α p) (c : Config α)

def newModelTried : Node × Pass α p :=
  (.recomputedStep, w.note { w.search.record with stage := w.search.record.stage + 1 })

def retryDecision : Node × Pass α p :=
  if w.search.iterate.model ≠ w.search.record.bestModel then (.newModelTried, w)
  else (.measureStep,
    w.note { w.search.record with stage := w.search.iterate.stageLimit, growth := -1 })

def recomputedStep : Node × Pass α p :=
  if 0 < w.search.record.stage then (.checkOversize, w)
  else if w.search.iterate.oversized then (.shrink, w)
  else
    -- The stage was negated when the trial was too large, and is counted again.
    let w := w.note { w.search.record with stage := -w.search.record.stage }
    match w.search.record.resume with
    | .otherOrShorter => (.retryDecision, w)
    | .otherOrAccept => (.newModelTried, w)
    | .acceptByGradient | .accept => (.measureStep, w)
    | .recompute => (.compareWithBest, w)
    | _ => (.done, w.rule .badInput)

def checkOversize : Node × Pass α p :=
  if !w.search.iterate.oversized then (.compareWithBest, w)
  else if 0 < w.search.record.growth then (.restoreBest, w)
  else (.shrink,
    w.note { w.search.record with stage := -w.search.record.stage, resume := w.search.verdict })

def shrink : Node × Pass α p :=
  (.done, (w.note { w.search.record with
    radiusFactor := c.decreaseFactor
    growth := w.search.record.growth - 1 }).rule .recompute)

def recordCode : Node × Pass α p :=
  (.convergenceTests, w.note { w.search.record with resume := w.search.verdict })

def saveBest : Node × Pass α p :=
  (.recordCode, w.note { w.search.record with
    bestF := w.search.iterate.f
    bestModel := w.search.iterate.model
    bestStep := w.search.trial.step
    bestLength := w.search.trial.length
    bestReduction := w.search.trial.reduction
    bestSlope := w.search.trial.slope })

variable [Scalar α]

def keepRadius : Node × Pass α p :=
  (.recordCode, (w.note { w.search.record with radiusFactor := 1 }).rule .acceptByGradient)

def beginIteration (entry : Verdict) : Node × Pass α p :=
  let r := { w.search.record with stage := 1, growth := 0, bestF := w.search.iterate.f₀ }
  if w.search.iterate.oversized then (.shrink, w.note { r with stage := -1, resume := entry })
  else (.measureStep, w.note r)

/-- A step that is no gain loses its model too. -/
def compareWithBest : Node × Pass α p :=
  let r := w.search.record
  if w.search.iterate.f < r.bestF then (.measureStep, w)
  else if w.search.iterate.model ≠ r.bestModel then
    (.restoreBest, { w with search := { w.search with
      iterate := { w.search.iterate with model := r.bestModel }
      record := { r with switched := true } } })
  else (.restoreBest, w)

def restoreBest : Node × Pass α p :=
  let r := w.search.record
  let t := w.search.trial
  if w.search.iterate.f₀ ≤ r.bestF then (.measureStep, w)
  else (.measureStep, { w with
    search := { w.search with
      iterate := { w.search.iterate with f := r.bestF }
      trial := { t with reduction := r.bestReduction, slope := r.bestSlope, length := r.bestLength }
      record := { r with restored := true } }
    relief := if r.switched then w.relief else t.length / r.bestLength
    current := false })

def measureStep : Node × Pass α p :=
  let i := w.search.iterate
  let w := { w with change := relativeStep i.d i.x i.x₀ }
  let best := w.search.record.bestStep
  (.classifyDecrease,
    -- The change is measured at the trial, even if the best step is put back after it.
    if w.search.record.restored then
      { w with search := { w.search with
        iterate := { i with x := i.x₀ + best }
        trial := { w.search.trial with step := best } } }
    else w)

def classifyDecrease : Node × Pass α p :=
  let decrease := w.search.iterate.f₀ - w.search.iterate.f
  (if c.tuner2 * w.search.trial.reduction < decrease then .nontrivialDecrease else .trivialDecrease,
    w.note { w.search.record with decrease })

def trivialDecrease : Node × Pass α p :=
  let i := w.search.iterate
  let r := { w.search.record with change := w.change }
  -- A trial without any gain is put back to where it started.
  let s := if i.f₀ ≤ i.f then
      { w.search with
        iterate := { i with f := i.f₀, x := i.x₀ }
        record := { r with bestModel := i.model, bestF := i.f, restored := true } }
    else { w.search with record := r }
  (.fletcherRadius, { w with search :=
    if i.stageLimit ≤ r.stage then
      { s with verdict := .recompute, record := { s.record with growth := s.record.growth - 1 } }
    else { s with verdict := .otherOrShorter } })

def nontrivialDecrease : Node × Pass α p :=
  let r := w.search.record
  let t := w.search.trial
  let w := { w with relief := 1 }.note { r with
    change := if w.current then w.change else r.change
    bestLength := t.length }
  if t.reduction * c.tuner1 < r.decrease then (.goodDecrease, w)
  else if r.stage < w.search.iterate.stageLimit then (.saveBest, w.rule .otherOrAccept)
  else (.fletcherRadius, w.rule .accept)

def fletcherRadius : Node × Pass α p :=
  let r := w.search.record
  let slope := w.search.trial.slope
  let e := slope + r.decrease
  (.falseConvergenceTest, w.note { r with
    resume := w.search.verdict
    radiusFactor :=
      if e < slope then w.relief * max c.radfacMin (1 / 2 * slope / e) else 1 / 2 * w.relief })

def falseConvergenceTest : Node × Pass α p :=
  let r := w.search.record
  if r.change ≤ c.falseConvergeTol then (.convergenceTests, w.rule .falseConverged)
  else
    (if w.search.iterate.f < w.search.iterate.f₀ then .saveBest else .recordCode,
      w.rule r.resume)

/-- A larger radius is worth a try unless it was just made smaller or the step was put back. -/
def goodDecrease : Node × Pass α p :=
  let r := w.search.record
  let slope := w.search.trial.slope
  if r.decrease < -c.tuner3 * slope then (.keepRadius, w)
  else if r.growth < 0 ∨ r.restored then (.keepRadius, w)
  else
    -- To where the parabola through both values and the slope has its minimum.
    let factor :=
      if r.decrease < (1 / 2 / c.radfacMax - 1) * slope then
        max c.increaseFactor (1 / 2 * slope / (slope + r.decrease))
      else c.radfacMax
    let r := { r with radiusFactor := factor }
    if w.search.trial.parameter == 0 then (.recordCode, (w.note r).rule .accept)
    else (.saveBest, (w.note { r with growth := r.growth + 1 }).rule .recompute)

def resumeAfterConvergence : Node × Pass α p :=
  let r := w.search.record
  (.convergenceTests, w.rule (if r.bestLength ≤ 0 then .falseConverged else r.resume))

/-- The tests that ask whether the model predicts next to nothing. -/
def smallPrediction (v : Verdict) : Verdict :=
  let t := w.search.trial
  let size := Scalar.abs w.search.iterate.f₀
  let v :=
    if c.initialTrustRadius < t.length ∧ t.reduction ≤ c.singularTol * size then
      .singularConverged else v
  -- A negative length tells that there is no Newton step.
  if 0 ≤ t.newtonLength then
    let small := t.parameter == 0 && decide (w.search.record.change ≤ c.xConvergeTol) && w.current
    let relative := decide (0 < t.newtonReduction ∧ t.newtonReduction ≤ c.relFuncTol * size)
    (Verdict.converged? small relative).getD v
  else v

def convergenceTests : Node × Pass α p :=
  let i := w.search.iterate
  let v := if Scalar.abs i.f < c.absFuncTol then .absFuncConverged else w.search.verdict
  if w.search.trial.reduction < 1 / 2 * w.search.record.decrease then (.done, w.rule v)
  else (.singularScreen,
    { w with threshold := c.singularTol * Scalar.abs i.f₀ }.rule (w.smallPrediction c v))

def singularScreen : Node × Pass α p :=
  let t := w.search.trial
  let v := w.search.verdict
  if 5 < v.code ∧ v ≠ .falseConverged then (.done, w)
  else if c.initialTrustRadius < t.length then (.singularStepLength, w)
  else if w.threshold ≤ t.reduction then (.done, w)
  else if t.newtonLength ≤ 0 then (.singularStepLength, w)
  else if 1 / 2 * t.newtonLength ≤ c.initialTrustRadius then (.done, w)
  else (.singularStepLength, w)

def singularStepLength : Node × Pass α p :=
  let t := w.search.trial
  if 1 / 2 * t.length ≤ c.initialTrustRadius then (.requestProbe, w)
  else
    let ratio := c.initialTrustRadius / t.length
    if w.threshold ≤ ratio * (2 - ratio) * t.reduction then (.done, w) else (.requestProbe, w)

def requestProbe : Node × Pass α p :=
  let t := w.search.trial
  if t.newtonReduction < 0 then (.singularTest, w)
  else (.done, (w.note { w.search.record with
    bestSlope := t.slope
    -- The sign of the length keeps the verdict for after the probe.
    bestLength := if w.search.verdict = .falseConverged then -t.length else t.length
    bestReduction := t.reduction
    bestStep := t.step }).rule .probe)

/-- The trial is the probe; the step that was judged before it is put back. -/
def probed : Node × Pass α p :=
  let r := w.search.record
  let t := w.search.trial
  (.singularTest, { w with search := { w.search with
    trial := { t with
      slope := r.bestSlope
      length := Scalar.abs r.bestLength
      step := r.bestStep
      newtonReduction := -t.reduction
      reduction := r.bestReduction }
    verdict := if r.bestLength ≤ 0 then .falseConverged else r.resume } })

def singularTest : Node × Pass α p :=
  (.done,
    if -w.search.trial.newtonReduction ≤ c.singularTol * Scalar.abs w.search.iterate.f₀ then
      w.rule .singularConverged
    else w)

def transition (entry : Verdict) : Node → Node × Pass α p
  | .beginIteration => w.beginIteration entry
  | .retryDecision => w.retryDecision
  | .newModelTried => w.newModelTried
  | .recomputedStep => w.recomputedStep
  | .checkOversize => w.checkOversize
  | .shrink => w.shrink c
  | .compareWithBest => w.compareWithBest
  | .restoreBest => w.restoreBest
  | .measureStep => w.measureStep
  | .classifyDecrease => w.classifyDecrease c
  | .trivialDecrease => w.trivialDecrease
  | .nontrivialDecrease => w.nontrivialDecrease c
  | .fletcherRadius => w.fletcherRadius c
  | .falseConvergenceTest => w.falseConvergenceTest c
  | .goodDecrease => w.goodDecrease c
  | .saveBest => w.saveBest
  | .keepRadius => w.keepRadius
  | .resumeAfterConvergence => w.resumeAfterConvergence
  | .recordCode => w.recordCode
  | .convergenceTests => w.convergenceTests c
  | .singularScreen => w.singularScreen c
  | .singularStepLength => w.singularStepLength c
  | .requestProbe => w.requestProbe
  | .probed => w.probed
  | .singularTest => w.singularTest c
  | .done => (.done, w)

end Pass

end LeastSquares
