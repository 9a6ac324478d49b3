import LeastSquares.Fit.Basic

namespace LeastSquares

/-- What follows one trial. -/
inductive Next where
  | again
  | accepted
  | finished (outcome : Outcome)
deriving DecidableEq

namespace Setup

variable {α σ : Type} {n p : Nat} [Geometry α]

/-- The memory is of no use for another model than its own. -/
def refreshMemory (r : Run α σ n p) : Run α σ n p :=
  let model := r.search.iterate.model
  if model ≠ r.memoryModel then { r with memory := r.memory.reset, memoryModel := model } else r

def newStep (c : Config α) (h : Symmetric α p) (g : Vector α p) (radius : α) (r : Run α σ n p) :
    Run α σ n p :=
  let (trial, memory) := trustStep c h g r.search.iterate.d radius r.memory
  { r with search := { r.search with trial }, memory }

variable (s : Setup α σ p)

def constrained (h : Symmetric α p) (g : Vector α p) (r : Run α σ n p) : Run α σ n p :=
  let i := r.search.iterate
  match s.bounds.bind fun b => b.constrain? i.x₀ g h i.d r.search.trial with
  | some trial => { r with search := { r.search with trial } }
  | none => r

def computeStep (g : Vector α p) (normal : Symmetric α p) (r : Run α σ n p) : Run α σ n p :=
  let r := refreshMemory r
  let h := r.hessian normal
  let r := s.constrained h g (newStep s.config h g r.search.iterate.radius r)
  { r with search := r.search.placeTrial }

/-- With no evaluation left, the best point of all is the answer. -/
def giveUp (r : Run α σ n p) : Run α σ n p :=
  let i := r.search.iterate
  if r.best.f < i.f₀ then r.moveTo r.best.x r.best.f else r.moveTo i.x₀ i.f₀

def setTrialValue (f : α) (oversized : Bool) (r : Run α σ n p) : Run α σ n p :=
  { r with search := { r.search with iterate := { r.search.iterate with f, oversized } } }

def keepBest (x : Vector α p) (residuals : Vector α n) (f : α) (r : Run α σ n p) : Run α σ n p :=
  if f < r.best.f then { r with best := ⟨x, residuals, f⟩ } else r

/-- A trial that cannot be evaluated counts as one that went too far. -/
def evaluateTrial (r : Run α σ n p) : Run α σ n p :=
  let x := r.search.iterate.x
  let (answer, account) := s.problem.countedResiduals n x r.account
  let r := { r with account }
  match answer with
  | .error e => setTrialValue Scalar.huge true (r.warn (.trialRejected e))
  | .ok v =>
    let f := objective v
    if Scalar.isFinite f then
      let r := keepBest x v f (setTrialValue f false r)
      { r with trials := (x, v) :: r.trials }
    else setTrialValue Scalar.huge true (r.warn .trialOverflow)

/-- Judges the trial, and where the verdict asks for it, probes the largest radius first. -/
def judge (g : Vector α p) (h : Symmetric α p) (r : Run α σ n p) : Run α σ n p :=
  let r := { r with search := assess s.config r.search }
  if r.search.verdict = .probe then
    let r := newStep s.config h g s.config.initialTrustRadius r
    { r with search := assess s.config r.search }
  else r

/-- Goes back to where the iteration started, for a shorter step. -/
def retreat (r : Run α σ n p) : Run α σ n p :=
  let radius := s.config.decreaseFactor * r.reach
  let i := r.search.iterate
  { r with search := { r.search with
    verdict := .accept
    iterate := { i with x := i.x₀, f := i.f₀, radius } } }

/-- Moves to the accepted point, unless its Jacobian cannot be had. -/
def accept (g : Vector α p) (normal h : Symmetric α p) (r : Run α σ n p) : Run α σ n p × Next :=
  let x := r.search.iterate.x
  let (answer, account) := s.problem.countedLinearization n x r.account
  let r := { r with account }
  match answer with
  | .error e => (s.retreat (r.warn (.acceptedJacobian e)), .again)
  | .ok (residuals, jacobian) =>
    let r := { r with
      base := ⟨x, residuals, jacobian⟩
      previous := some {
        x := r.search.iterate.x₀
        gradient := g
        jacobian := r.base.jacobian
        d := r.search.iterate.d
        normal
        hessian := h
        verdict := r.search.verdict
        radiusFactor := r.search.record.radiusFactor
        length := r.search.trial.length } }
    -- The user is asked at the new point, and may stop there.
    let (stop, state) := s.problem.stopRequested r.iterations x r.account.state
    ({ r with account := { r.account with state } },
      if stop then .finished .userStop else .accepted)

/-- Does what the verdict says. The other model is that of the one the step was computed with. -/
def follow (g : Vector α p) (normal h : Symmetric α p) (model : Model) (r : Run α σ n p) :
    Run α σ n p × Next :=
  match r.search.verdict with
  | .otherOrShorter | .otherOrAccept => (r.setModel model.other, .again)
  | .recompute => (r.setRadius (r.search.record.radiusFactor * r.reach), .again)
  | .acceptByGradient | .accept => s.accept g normal h r
  | v => (r, .finished (v.outcome?.getD .badInput))

def tryStep (g : Vector α p) (normal : Symmetric α p) (r : Run α σ n p) : Run α σ n p × Next :=
  let h := r.hessian normal
  let model := r.search.iterate.model
  s.follow g normal h model (s.judge g h (s.evaluateTrial r))

theorem functionEvals_computeStep (g : Vector α p) (normal : Symmetric α p) (r : Run α σ n p) :
    (s.computeStep g normal r).account.functionEvals = r.account.functionEvals := by
  have h (r : Run α σ n p) : (refreshMemory r).account = r.account := by
    unfold refreshMemory; dsimp only; split <;> rfl
  have h' (h) (r : Run α σ n p) : (s.constrained h g r).account = r.account := by
    unfold constrained; dsimp only; split <;> rfl
  simp only [computeStep, h', newStep, h]

theorem functionEvals_evaluateTrial (r : Run α σ n p) :
    (s.evaluateTrial r).account.functionEvals = r.account.functionEvals + 1 := by
  have h (x v f) (r : Run α σ n p) : (keepBest x v f r).account = r.account := by
    unfold keepBest; split <;> rfl
  unfold evaluateTrial
  simp only [Problem.countedResiduals]
  split
  · rfl
  · split
    · simp only [h, setTrialValue]
    · rfl

theorem account_judge (g : Vector α p) (h : Symmetric α p) (r : Run α σ n p) :
    (s.judge g h r).account = r.account := by
  unfold judge; dsimp only; split <;> rfl

theorem functionEvals_follow (g : Vector α p) (normal h : Symmetric α p) (model : Model)
    (r : Run α σ n p) :
    (s.follow g normal h model r).1.account.functionEvals = r.account.functionEvals := by
  unfold follow
  split <;> try rfl
  all_goals
    unfold accept
    simp only [Problem.countedLinearization]
    split <;> rfl

theorem functionEvals_tryStep (g : Vector α p) (normal : Symmetric α p) (r : Run α σ n p) :
    (s.tryStep g normal r).1.account.functionEvals = r.account.functionEvals + 1 := by
  simp only [tryStep, functionEvals_follow, account_judge, functionEvals_evaluateTrial]

/-- The trials of one iteration, each of which uses up one evaluation. There is no outcome
when a step was accepted. -/
def stepLoop (g : Vector α p) (normal : Symmetric α p) (r : Run α σ n p) :
    Run α σ n p × Option Outcome :=
  if _ : s.config.maxFunctionEvals ≤ r.account.functionEvals then
    (giveUp (s.computeStep g normal r), some .functionEvalLimit)
  else
    match _ : s.tryStep g normal (s.computeStep g normal r) with
    | (r', .again) => stepLoop g normal r'
    | (r', .accepted) => (r', none)
    | (r', .finished o) => (r', some o)
termination_by s.config.maxFunctionEvals - r.account.functionEvals
decreasing_by
  rename_i hlt heq
  have h := s.functionEvals_tryStep g normal (s.computeStep g normal r)
  simp only [heq, functionEvals_computeStep] at h
  omega

end Setup

end LeastSquares
