import LeastSquares.Outcome
import LeastSquares.State

namespace LeastSquares

/-- What is to be done after a trial. It is also what the next assessment resumes from. -/
inductive Verdict where
  /-- Try the other model, or a smaller radius. -/
  | otherOrShorter
  /-- Try the other model; this step would do. -/
  | otherOrAccept
  /-- Accept, and let the new gradient set the radius. -/
  | acceptByGradient
  | accept
  /-- Compute another step of the same model. -/
  | recompute
  /-- Compute what the largest radius would gain, without a trial. -/
  | probe
  | xConverged
  | relFuncConverged
  | bothConverged
  | absFuncConverged
  | singularConverged
  | falseConverged
  | badInput
deriving DecidableEq

namespace Verdict

def code : Verdict → Nat
  | otherOrShorter => 1
  | otherOrAccept => 2
  | acceptByGradient => 3
  | accept => 4
  | recompute => 5
  | probe => 6
  | xConverged => 7
  | relFuncConverged => 8
  | bothConverged => 9
  | absFuncConverged => 10
  | singularConverged => 11
  | falseConverged => 12
  | badInput => 13

def all : List Verdict :=
  [otherOrShorter, otherOrAccept, acceptByGradient, accept, recompute, probe, xConverged,
    relFuncConverged, bothConverged, absFuncConverged, singularConverged, falseConverged, badInput]

def ofCode? (code : Int) : Option Verdict := all.find? fun v => (v.code : Int) = code

def outcome? : Verdict → Option Outcome
  | xConverged => some .xConverged
  | relFuncConverged => some .relFuncConverged
  | bothConverged => some .bothConverged
  | absFuncConverged => some .absFuncConverged
  | singularConverged => some .singularConverged
  | falseConverged => some .falseConverged
  | badInput => some .badInput
  | _ => none

/-- What the tests of the change of `x` and of the reduction that is left say together. -/
def converged? : (small relative : Bool) → Option Verdict
  | true, true => some bothConverged
  | false, true => some relFuncConverged
  | true, false => some xConverged
  | false, false => none

end Verdict

variable {α : Type} {p : Nat}

/-- What is remembered of the trials of one iteration. -/
structure Record (α : Type) (p : Nat) where
  /-- How many models were tried, negated while a trial is too large to be evaluated. -/
  stage : Int32
  /-- Positive while the radius grows, negative once it has shrunk. -/
  growth : Int32
  /-- The step judged is not the last trial. -/
  restored : Bool
  /-- The model of the best step was taken up again. -/
  switched : Bool
  resume : Verdict
  bestModel : Model
  bestF : α
  bestReduction : α
  bestSlope : α
  /-- Negated where false convergence waits for the outcome of a probe. -/
  bestLength : α
  bestStep : Vector α p
  change : α
  decrease : α
  radiusFactor : α

/-- Where a fit stands between its iterations and its trials. -/
structure Search (α : Type) (p : Nat) where
  verdict : Verdict
  iterate : Iterate α p
  trial : Trial α p
  record : Record α p

variable [Scalar α]

def Record.new (p : Nat) : Record α p where
  stage := 0
  growth := 0
  restored := false
  switched := false
  resume := .accept
  bestModel := .gaussNewton
  bestF := 0
  bestReduction := 0
  bestSlope := 0
  bestLength := 0
  bestStep := Vector.replicate p 0
  change := 0
  decrease := 0
  radiusFactor := 1

namespace Search

def start (x : Vector α p) (f : α) (d : Vector α p) (radius : α) : Search α p where
  verdict := .accept
  iterate := ⟨x, x, f, f, d, radius, .gaussNewton, 1, false⟩
  trial := .zero p
  record := .new p

def beginIteration (s : Search α p) : Search α p :=
  { s with iterate := { s.iterate with x₀ := s.iterate.x, f₀ := s.iterate.f, oversized := false } }

def placeTrial (s : Search α p) : Search α p :=
  { s with iterate := { s.iterate with x := s.iterate.x₀ + s.trial.step } }

end Search

end LeastSquares
