import LeastSquares.Proofs.Assess.Rest

namespace LeastSquares

variable {p : Nat}

def Verdict.Converges : Verdict → Prop
  | .xConverged | .relFuncConverged | .bothConverged | .absFuncConverged => True
  | _ => False

theorem Verdict.Converges.final {v : Verdict} (h : v.Converges) :
    5 < v.code ∧ v ≠ .falseConverged := by
  cases v <;> first | exact h.elim | decide

theorem Verdict.Converges.outcome? {v : Verdict} (h : v.Converges) :
    ∃ o, v.outcome? = some o ∧ o.allowsCovariance = true := by
  cases v <;> first | exact h.elim | exact ⟨_, rfl, rfl⟩

/-- A gain that is just what was foretold passes for a good one, and not for a reason to ask
for a larger radius. -/
structure Config.Believes (c : Config ℝ) : Prop where
  tuner1 : c.tuner1 < 1
  tuner2 : c.tuner2 < 1
  tuner3 : 1 / 2 < c.tuner3
  singularTol : c.singularTol ≤ c.relFuncTol

/-- The trial is a whole Newton step of a model that foretold its gain, and within the radius
that singular convergence is about. -/
structure Search.Foretold (c : Config ℝ) (e : Search ℝ p) : Prop where
  gains : 0 < e.trial.reduction
  decrease : e.iterate.f₀ - e.iterate.f = e.trial.reduction
  slope : e.trial.slope = -(2 * e.trial.reduction)
  newtonReduction : e.trial.newtonReduction = e.trial.reduction
  newtonLength : 0 ≤ e.trial.newtonLength
  length : e.trial.length ≤ c.initialTrustRadius

namespace Pass

variable {w : Pass ℝ p} {c : Config ℝ} {e : Search ℝ p}

/-- The trial that is judged is the one `e` has, where `e` has it. -/
def Keeps (e : Search ℝ p) (w : Pass ℝ p) : Prop :=
  w.search.iterate = e.iterate ∧ w.search.trial = e.trial

/-- The way of a first trial whose gain was foretold, up to its verdict. -/
def Believed (e : Search ℝ p) : Node → Pass ℝ p → Prop
  | .beginIteration, w | .measureStep, w => w.Keeps e ∧ w.search.record.restored = false
  | .classifyDecrease, w => w.Keeps e
  | .nontrivialDecrease, w | .goodDecrease, w | .keepRadius, w => w.Keeps e ∧
      w.search.record.decrease = e.trial.reduction
  | .recordCode, w | .convergenceTests, w => w.Keeps e ∧
      w.search.record.decrease = e.trial.reduction ∧ w.search.verdict = .acceptByGradient
  | .singularScreen, w => w.Keeps e ∧ (w.search.verdict.Converges ∨
      w.search.verdict = .acceptByGradient ∧ w.threshold ≤ e.trial.reduction)
  | .done, w => w.Keeps e ∧
      (w.search.verdict.Converges ∨ w.search.verdict = .acceptByGradient)
  | _, _ => False

section

variable (hc : c.Believes) (he : e.Foretold c)
include hc he

theorem believed_classifyDecrease (hw : Believed e .classifyDecrease w) :
    Believed e (w.classifyDecrease c).1 (w.classifyDecrease c).2 := by
  obtain ⟨hiterate, htrial⟩ := hw
  have hdecrease : w.search.iterate.f₀ - w.search.iterate.f = e.trial.reduction := by
    rw [hiterate]
    exact he.decrease
  have hnontrivial : c.tuner2 * e.trial.reduction < e.trial.reduction :=
    mul_lt_of_lt_one_left he.gains hc.tuner2
  unfold classifyDecrease
  dsimp only
  rw [hdecrease, htrial, if_pos hnontrivial]
  exact ⟨⟨hiterate, htrial⟩, rfl⟩

theorem believed_nontrivialDecrease (hw : Believed e .nontrivialDecrease w) :
    Believed e (w.nontrivialDecrease c).1 (w.nontrivialDecrease c).2 := by
  obtain ⟨⟨hiterate, htrial⟩, hdecrease⟩ := hw
  have hgood : w.search.trial.reduction * c.tuner1 < w.search.record.decrease := by
    rw [hdecrease, htrial]
    exact mul_lt_of_lt_one_right he.gains hc.tuner1
  unfold nontrivialDecrease
  dsimp only [note]
  rw [if_pos hgood]
  exact ⟨⟨hiterate, htrial⟩, hdecrease⟩

theorem believed_goodDecrease (hw : Believed e .goodDecrease w) :
    Believed e (w.goodDecrease c).1 (w.goodDecrease c).2 := by
  obtain ⟨⟨hiterate, htrial⟩, hdecrease⟩ := hw
  have hsmall : w.search.record.decrease < -c.tuner3 * w.search.trial.slope := by
    have hpos := mul_pos (sub_pos.mpr hc.tuner3) he.gains
    rw [hdecrease, htrial, he.slope]
    linarith
  unfold goodDecrease
  dsimp only
  rw [if_pos hsmall]
  exact ⟨⟨hiterate, htrial⟩, hdecrease⟩

theorem smallPrediction_believed (hw : w.Keeps e) {v : Verdict}
    (hv : v.Converges ∨ v = .acceptByGradient) :
    (w.smallPrediction c v).Converges ∨ w.smallPrediction c v = .acceptByGradient ∧
      c.singularTol * |w.search.iterate.f₀| ≤ e.trial.reduction := by
  obtain ⟨hiterate, htrial⟩ := hw
  have hshort : ¬c.initialTrustRadius < e.trial.length := not_lt.mpr he.length
  unfold smallPrediction
  dsimp only
  rw [htrial, if_pos he.newtonLength, if_neg fun h => hshort h.1, abs_eq]
  generalize (e.trial.parameter == 0 &&
    decide (w.search.record.change ≤ c.xConvergeTol) && w.current) = small
  by_cases hrelative : e.trial.reduction ≤ c.relFuncTol * |w.search.iterate.f₀|
  · have hfound : 0 < e.trial.newtonReduction ∧
        e.trial.newtonReduction ≤ c.relFuncTol * |w.search.iterate.f₀| := by
      rw [he.newtonReduction]
      exact ⟨he.gains, hrelative⟩
    rw [decide_eq_true hfound]
    cases small <;> exact .inl trivial
  · have hnot : ¬(0 < e.trial.newtonReduction ∧
        e.trial.newtonReduction ≤ c.relFuncTol * |w.search.iterate.f₀|) := by
      rw [he.newtonReduction]
      exact fun h => hrelative h.2
    have hthreshold : c.singularTol * |w.search.iterate.f₀| ≤ e.trial.reduction :=
      (mul_le_mul_of_nonneg_right hc.singularTol (abs_nonneg _)).trans (not_le.mp hrelative).le
    rw [decide_eq_false hnot]
    cases small
    · exact hv.imp_right fun h => ⟨h, hthreshold⟩
    · exact .inl trivial

theorem believed_convergenceTests (hw : Believed e .convergenceTests w) :
    Believed e (w.convergenceTests c).1 (w.convergenceTests c).2 := by
  obtain ⟨hkeeps, hdecrease, hverdict⟩ := hw
  have hforetold : ¬w.search.trial.reduction < 1 / 2 * w.search.record.decrease := by
    have hgains := he.gains
    rw [hdecrease, hkeeps.2]
    linarith
  unfold convergenceTests
  dsimp only
  rw [if_neg hforetold]
  refine ⟨hkeeps, smallPrediction_believed hc he hkeeps ?_⟩
  split
  · exact .inl trivial
  · exact .inr hverdict

omit hc in
theorem believed_singularScreen (hw : Believed e .singularScreen w) :
    Believed e (w.singularScreen c).1 (w.singularScreen c).2 := by
  obtain ⟨⟨hiterate, htrial⟩, hconverges | ⟨hverdict, hthreshold⟩⟩ := hw
  · unfold singularScreen
    dsimp only
    rw [if_pos hconverges.final]
    exact ⟨⟨hiterate, htrial⟩, .inl hconverges⟩
  · have hopen : ¬(5 < w.search.verdict.code ∧ w.search.verdict ≠ .falseConverged) := by
      rw [hverdict]
      decide
    unfold singularScreen
    dsimp only
    rw [if_neg hopen, htrial, if_neg (not_lt.mpr he.length), if_pos hthreshold]
    exact ⟨⟨hiterate, htrial⟩, .inr hverdict⟩

theorem believed_transition (hfits : e.iterate.oversized = false) (entry : Verdict) {node : Node}
    (hw : Believed e node w) :
    Believed e (w.transition c entry node).1 (w.transition c entry node).2 := by
  cases node with
  | beginIteration =>
    obtain ⟨⟨hiterate, htrial⟩, hrestored⟩ := hw
    change Believed e (w.beginIteration entry).1 (w.beginIteration entry).2
    unfold Pass.beginIteration
    dsimp only
    rw [hiterate, hfits]
    exact ⟨⟨hiterate, htrial⟩, hrestored⟩
  | measureStep =>
    obtain ⟨hkeeps, hrestored⟩ := hw
    change Believed e w.measureStep.1 w.measureStep.2
    unfold Pass.measureStep
    dsimp only
    rw [hrestored]
    exact hkeeps
  | classifyDecrease => exact believed_classifyDecrease hc he hw
  | nontrivialDecrease => exact believed_nontrivialDecrease hc he hw
  | goodDecrease => exact believed_goodDecrease hc he hw
  | keepRadius => exact ⟨hw.1, hw.2, rfl⟩
  | recordCode => exact hw
  | convergenceTests => exact believed_convergenceTests hc he hw
  | singularScreen => exact believed_singularScreen he hw
  | done => exact hw
  | _ => exact hw.elim

end

end Pass

theorem Search.Foretold.assess_eq {c : Config ℝ} {e : Search ℝ p} (hc : c.Believes)
    (he : e.Foretold c) (hready : e.Ready)
    (hv : e.verdict = .acceptByGradient ∨ e.verdict = .accept)
    (hfits : e.iterate.oversized = false) :
    (assess c e).iterate = e.iterate ∧ (assess c e).trial = e.trial ∧
      ((assess c e).verdict.Converges ∨ (assess c e).verdict = .acceptByGradient) := by
  have hentry : e.verdict.entry = .beginIteration := by
    rcases hv with hv | hv <;> rw [hv] <;> rfl
  have hstart : Pass.Believed e e.verdict.entry e.pass := by
    rw [hentry]
    exact ⟨⟨rfl, rfl⟩, rfl⟩
  obtain ⟨w, hw, heq⟩ := hready.assess_invariant (c := c) hstart
    (Pass.believed_transition hc he hfits e.verdict)
  rw [heq]
  exact ⟨hw.1.1, hw.1.2, hw.2⟩

end LeastSquares
