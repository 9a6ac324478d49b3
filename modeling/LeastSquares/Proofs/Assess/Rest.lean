import LeastSquares.Proofs.Assess.Pace

namespace LeastSquares

variable {p : Nat}

/-- What is said of a step of which the bounds leave nothing. -/
structure Trial.Rests (t : Trial ℝ p) : Prop where
  length : t.length = 0
  reduction : t.reduction = 0
  newtonReduction : t.newtonReduction = 0
  parameter : t.parameter = 0
  newtonLength : t.newtonLength = 0

/-- The trial is where the iteration started, and is worth the same. -/
structure Search.Rests (s : Search ℝ p) : Prop where
  trial : s.trial.Rests
  x : s.iterate.x = s.iterate.x₀
  f : s.iterate.f = s.iterate.f₀

structure Config.Restful (c : Config ℝ) : Prop where
  falseConvergeTol : 0 ≤ c.falseConvergeTol
  xConvergeTol : 0 ≤ c.xConvergeTol
  initialTrustRadius : 0 ≤ c.initialTrustRadius

namespace Pass

variable {w : Pass ℝ p} {c : Config ℝ}

/-- The way of a first trial that changes nothing, up to its verdict. -/
def Rest : Node → Pass ℝ p → Prop
  | .beginIteration, w => w.search.Rests ∧ w.current = true ∧
      w.search.iterate.oversized = false ∧ w.search.record.restored = false
  | .measureStep, w => w.search.Rests ∧ w.current = true ∧ w.search.record.restored = false
  | .classifyDecrease, w => w.search.Rests ∧ w.current = true ∧ w.change = 0
  | .trivialDecrease, w => w.search.Rests ∧ w.current = true ∧ w.change = 0 ∧
      w.search.record.decrease = 0
  | .fletcherRadius, w | .falseConvergenceTest, w | .convergenceTests, w =>
    w.search.Rests ∧ w.current = true ∧ w.search.record.change = 0 ∧
      w.search.record.decrease = 0
  | .singularScreen, w | .done, w => w.search.Rests ∧ w.search.verdict = .xConverged
  | _, _ => False

theorem rest_measureStep (hw : Rest .measureStep w) :
    Rest w.measureStep.1 w.measureStep.2 := by
  obtain ⟨hrests, hcurrent, hrestored⟩ := hw
  have hchange : relativeStep w.search.iterate.d w.search.iterate.x w.search.iterate.x₀ = 0 := by
    rw [hrests.x]
    exact relativeStep_self _ _
  exact measureStep_elim (fun _ => ⟨hrests, hcurrent, hchange⟩) (by simp [hrestored])

theorem rest_classifyDecrease (hw : Rest .classifyDecrease w) :
    Rest (w.classifyDecrease c).1 (w.classifyDecrease c).2 := by
  obtain ⟨hrests, hcurrent, hchange⟩ := hw
  have hdecrease : w.search.iterate.f₀ - w.search.iterate.f = 0 := by
    rw [hrests.f, sub_self]
  have htrivial : ¬c.tuner2 * w.search.trial.reduction <
      w.search.iterate.f₀ - w.search.iterate.f := by
    rw [hrests.trial.reduction, hdecrease, mul_zero]
    exact lt_irrefl 0
  exact classifyDecrease_elim (fun hgain => absurd hgain htrivial)
    fun _ => ⟨⟨hrests.trial, hrests.x, hrests.f⟩, hcurrent, hchange, hdecrease⟩

theorem rest_trivialDecrease (hw : Rest .trivialDecrease w) :
    Rest w.trivialDecrease.1 w.trivialDecrease.2 := by
  obtain ⟨hrests, hcurrent, hchange, hdecrease⟩ := hw
  unfold trivialDecrease
  dsimp only
  rw [if_pos hrests.f.ge]
  split
  · exact ⟨⟨hrests.trial, rfl, rfl⟩, hcurrent, hchange, hdecrease⟩
  · exact ⟨⟨hrests.trial, rfl, rfl⟩, hcurrent, hchange, hdecrease⟩

theorem rest_falseConvergenceTest (hc : c.Restful) (hw : Rest .falseConvergenceTest w) :
    Rest (w.falseConvergenceTest c).1 (w.falseConvergenceTest c).2 := by
  have hsmall : w.search.record.change ≤ c.falseConvergeTol := by
    rw [hw.2.2.1]
    exact hc.falseConvergeTol
  exact falseConvergenceTest_elim (fun _ => ⟨⟨hw.1.trial, hw.1.x, hw.1.f⟩, hw.2⟩)
    (fun hfar => absurd hsmall hfar) fun hfar => absurd hsmall hfar

theorem smallPrediction_rests (hc : c.Restful) (hrests : w.search.Rests)
    (hcurrent : w.current = true) (hchange : w.search.record.change = 0) (v : Verdict) :
    w.smallPrediction c v = .xConverged := by
  have hradius : ¬c.initialTrustRadius < 0 := not_lt.mpr hc.initialTrustRadius
  have hlength := hrests.trial.length
  have hnewton := hrests.trial.newtonReduction
  unfold smallPrediction
  dsimp only
  rw [hlength, hnewton, hrests.trial.newtonLength, hrests.trial.parameter, hcurrent, hchange]
  simp [hradius, hc.xConvergeTol, Verdict.converged?]

theorem rest_convergenceTests (hc : c.Restful) (hw : Rest .convergenceTests w) :
    Rest (w.convergenceTests c).1 (w.convergenceTests c).2 := by
  obtain ⟨hrests, hcurrent, hchange, hdecrease⟩ := hw
  have hforetold : ¬w.search.trial.reduction < 1 / 2 * w.search.record.decrease := by
    rw [hrests.trial.reduction, hdecrease, mul_zero]
    exact lt_irrefl 0
  unfold convergenceTests
  dsimp only
  rw [if_neg hforetold]
  exact ⟨⟨hrests.trial, hrests.x, hrests.f⟩, smallPrediction_rests hc hrests hcurrent hchange _⟩

theorem rest_singularScreen (hw : Rest .singularScreen w) :
    Rest (w.singularScreen c).1 (w.singularScreen c).2 := by
  have hover : 5 < w.search.verdict.code ∧ w.search.verdict ≠ .falseConverged := by
    rw [hw.2]
    decide
  unfold singularScreen
  dsimp only
  rw [if_pos hover]
  exact hw

theorem rest_transition (hc : c.Restful) (entry : Verdict) {node : Node} (hw : Rest node w) :
    Rest (w.transition c entry node).1 (w.transition c entry node).2 := by
  cases node with
  | beginIteration =>
    obtain ⟨hrests, hcurrent, hfits, hrestored⟩ := hw
    change Rest (w.beginIteration entry).1 (w.beginIteration entry).2
    unfold Pass.beginIteration
    dsimp only
    rw [hfits]
    exact ⟨⟨hrests.trial, hrests.x, hrests.f⟩, hcurrent, hrestored⟩
  | measureStep => exact rest_measureStep hw
  | classifyDecrease => exact rest_classifyDecrease hw
  | trivialDecrease => exact rest_trivialDecrease hw
  | fletcherRadius => exact ⟨⟨hw.1.trial, hw.1.x, hw.1.f⟩, hw.2⟩
  | falseConvergenceTest => exact rest_falseConvergenceTest hc hw
  | convergenceTests => exact rest_convergenceTests hc hw
  | singularScreen => exact rest_singularScreen hw
  | done => exact hw
  | _ => exact hw.elim

end Pass

theorem Search.Rests.assess_eq {c : Config ℝ} {e : Search ℝ p} (hc : c.Restful) (he : e.Ready)
    (hrests : e.Rests) (hv : e.verdict = .acceptByGradient ∨ e.verdict = .accept)
    (hfits : e.iterate.oversized = false) :
    (assess c e).verdict = .xConverged ∧
      (assess c e).iterate.x = (assess c e).iterate.x₀ := by
  have hentry : e.verdict.entry = .beginIteration := by
    rcases hv with hv | hv <;> rw [hv] <;> rfl
  have hstart : Pass.Rest e.verdict.entry e.pass := by
    rw [hentry]
    exact ⟨⟨hrests.trial, hrests.x, hrests.f⟩, rfl, hfits, rfl⟩
  obtain ⟨w, hw, heq⟩ :=
    he.assess_invariant (c := c) hstart (Pass.rest_transition hc e.verdict)
  rw [heq]
  exact ⟨hw.2, hw.1.x⟩

end LeastSquares
