import LeastSquares.Proofs.Assess.Moves

namespace LeastSquares

variable {α : Type} [Scalar α] {p : Nat}

namespace Search

variable (e : Search α p)

/-- What an assessment has when it was entered, but for the stage. -/
def atStage (k : Int32) : Search α p :=
  { e with record := { e.record with stage := k, restored := false, switched := false } }

def Tier (k : Int32) : Prop := k = 1 ∧ e.iterate.model = e.record.bestModel ∨ k = 2 ∨ k = 3

omit [Scalar α] in
variable {e} in
theorem framed_of_iterate {s : Search α p} {x : Vector α p} {f : α} {model : Model}
    (h : s.iterate = { e.iterate with x, f, model })
    (hstage : s.record.stage = 1 ∧ s.iterate.model = e.iterate.model ∨
      s.record.stage = 2 ∨ s.record.stage = 3) : e.Framed s := by
  refine ⟨?_, ?_, ?_, ?_, ?_, ?_, hstage⟩ <;> rw [h]

/-- The stages at which a trial of an old or of a new model is compared. -/
def Staged (k : Int32) : Prop :=
  k = 1 ∧ e.verdict = .recompute ∧ e.iterate.model = e.record.bestModel ∨
  k = 2 ∧ (e.verdict = .recompute ∨ (e.verdict = .otherOrShorter ∨ e.verdict = .otherOrAccept) ∧
    e.iterate.model ≠ e.record.bestModel) ∨
  k = 3 ∧ e.verdict = .recompute

def Counts (k : Int32) : Prop :=
  k = 1 ∧ (e.verdict = .otherOrShorter ∨ e.verdict = .otherOrAccept) ∨
    k = 2 ∧ e.verdict = .recompute

omit [Scalar α] in
theorem Staged.tier {e : Search α p} {k : Int32} (h : e.Staged k) : e.Tier k := by
  rcases h with ⟨hk, -, hm⟩ | ⟨hk, -⟩ | ⟨hk, -⟩
  · exact .inl ⟨hk, hm⟩
  · exact .inr (.inl hk)
  · exact .inr (.inr hk)

/-- The best step is to be put back if it is a gain. -/
def PutsBack (model : Model) : Prop :=
  e.iterate.oversized = false ∧ ¬e.iterate.f < e.record.bestF ∧ model = e.record.bestModel ∨
    e.iterate.oversized = true ∧ 0 < e.record.growth ∧ model = e.iterate.model

def Own (k : Int32) (s : Search α p) : Prop :=
  s.record.restored = false ∧ s.record.stage = k ∧ s.trial = e.trial ∧
    s.iterate = { e.iterate with model := s.iterate.model }

omit [Scalar α] in
theorem own_atStage (k : Int32) : e.Own k (e.atStage k) := ⟨rfl, rfl, rfl, rfl⟩

def Back (k : Int32) (s : Search α p) : Prop :=
  s.record.restored = true ∧ s.record.stage = k ∧ s.record.bestStep = e.record.bestStep ∧
    { s.trial with step := e.record.bestStep } = e.recalled ∧
    s.iterate = { e.iterate with f := e.record.bestF, model := s.iterate.model }

end Search

namespace Pass

/-- What holds before each node of an assessment that is entered with `e`. The first nodes
choose the trial that is judged, the others give the verdict. -/
def Flow (c : Config α) (e : Search α p) : Node → Pass α p → Prop
  | .beginIteration, w => w.search = e.atStage e.record.stage ∧
      (e.verdict = .acceptByGradient ∨ e.verdict = .accept)
  | .retryDecision, w | .newModelTried, w => ∃ k, w.search = e.atStage k ∧ ¬e.Opens ∧
      e.iterate.model ≠ e.record.bestModel ∧ e.Counts k
  | .recomputedStep, w => ∃ k, w.search = e.atStage k ∧
      (¬e.Opens ∧ e.Staged k ∨ k = e.record.stage ∧ e.verdict = .recompute ∧ e.Retries)
  | .checkOversize, w => ∃ k, w.search = e.atStage k ∧ ¬e.Opens ∧ e.Staged k
  | .compareWithBest, w => ∃ k, w.search = e.atStage k ∧ ¬e.Opens ∧
      e.iterate.oversized = false ∧ e.Tier k
  | .restoreBest, w => ∃ k m b, w.search = { e.atStage k with
        iterate := { e.iterate with model := m }
        record := { (e.atStage k).record with switched := b } } ∧
      ¬e.Opens ∧ e.Tier k ∧ e.PutsBack m
  | .measureStep, w => ∃ k, (k = 1 ∧ w.search.iterate.model = e.iterate.model ∨ k = 2 ∨ k = 3) ∧
      (e.Own k w.search ∧
        e.Taken e.trial e.iterate.f e.iterate.x w.search.iterate.model ∨
      e.Back k w.search ∧ e.Taken e.recalled e.record.bestF
        (e.iterate.x₀ + e.record.bestStep) w.search.iterate.model)
  | .shrink, w => e.Shrunk { w.search with verdict := .recompute }
  | .classifyDecrease, w | .trivialDecrease, w => e.Framed w.search ∧ e.Moved w.search
  | .nontrivialDecrease, w | .goodDecrease, w | .keepRadius, w => e.Framed w.search ∧
      e.Moved w.search ∧ c.tuner2 * w.search.trial.reduction < e.iterate.f₀ - w.search.iterate.f
  | .fletcherRadius, w => e.Framed w.search ∧ e.Placed c w.search ∧
      e.Ruling c w.search (e.Gains w.search) w.search.verdict
  | .falseConvergenceTest, w => e.Framed w.search ∧ e.Placed c w.search ∧
      e.Ruling c w.search (e.Gains w.search) w.search.record.resume
  | .saveBest, w => e.Framed w.search ∧ e.Falls c w.search ∧
      e.Ruling c w.search True w.search.verdict
  | .recordCode, w => e.Framed w.search ∧ e.Placed c w.search ∧
      e.Ruling c w.search (e.Kept w.search) w.search.verdict
  | .convergenceTests, w | .singularStepLength, w | .requestProbe, w => e.Framed w.search ∧
      e.Placed c w.search ∧ (w.search.verdict = .falseConverged ∨ e.Recorded c w.search)
  | .singularScreen, w => e.Framed w.search ∧ e.Placed c w.search ∧
      (w.search.verdict.Final ∨ e.Recorded c w.search)
  | .singularTest, w => e.Framed w.search ∧ e.Placed c w.search ∧
      (w.search.verdict.Final ∨ e.Ruling c w.search (e.Kept w.search) w.search.verdict)
  | .done, w => e.Assessed c w.search
  | .resumeAfterConvergence, _ | .probed, _ => False

end Pass

end LeastSquares
