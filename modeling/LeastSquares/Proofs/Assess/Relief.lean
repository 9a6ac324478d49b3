import LeastSquares.Proofs.Assess.Pace

namespace LeastSquares

variable {p : Nat} {c : Config ℝ} {e : Search ℝ p} {node : Node} {w : Pass ℝ p}

/-- The assessment of `e` comes to this node, with `w` under way. -/
def Search.Visits (c : Config ℝ) (e : Search ℝ p) (node : Node) (w : Pass ℝ p) : Prop :=
  ∃ k, Pass.run c e.verdict k e.verdict.entry e.pass = (node, w)

theorem Pass.run_succ (c : Config ℝ) (entry : Verdict) (k : Nat) (node : Node) (w : Pass ℝ p) :
    run c entry (k + 1) node w =
      (run c entry k node w).2.transition c entry (run c entry k node w).1 := by
  induction k generalizing node w with
  | zero =>
    rw [run, run, run]
    split
    · next h =>
      subst h
      rfl
    · rfl
  | succ k ih =>
    rw [run, ih, run]
    split
    · rfl
    · rfl

theorem Search.Visits.next (h : e.Visits c node w) :
    e.Visits c (w.transition c e.verdict node).1 (w.transition c e.verdict node).2 := by
  obtain ⟨k, hk⟩ := h
  refine ⟨k + 1, ?_⟩
  rw [Pass.run_succ, hk]

theorem Search.Visits.invariant (h : e.Visits c node w) (inv : Node → Pass ℝ p → Prop)
    (hentry : inv e.verdict.entry e.pass)
    (hstep : ∀ {node w}, inv node w →
      inv (w.transition c e.verdict node).1 (w.transition c e.verdict node).2) : inv node w := by
  obtain ⟨k, hk⟩ := h
  have hrun := Pass.run_invariant hstep k hentry
  rw [hk] at hrun
  exact hrun

namespace Pass

/-- The length of the trial in that of the step that was put back for it. -/
noncomputable def quotient (e : Search ℝ p) : ℝ := e.trial.length / e.record.bestLength

/-- What the factor is before each node that may use it. A quotient by zero is only left where
the gain was not foretold, and is not used there. -/
def Relieves (e : Search ℝ p) : Node → Pass ℝ p → Prop
  | .beginIteration, w | .retryDecision, w | .newModelTried, w | .recomputedStep, w
  | .checkOversize, w | .compareWithBest, w | .restoreBest, w => w.relief = 1 ∧
      w.search.trial = e.trial ∧ w.search.record.bestLength = e.record.bestLength
  | .measureStep, w | .classifyDecrease, w => w.relief = 1 ∨
      (0 < e.record.bestLength ∨ w.Exceeds) ∧ w.relief = quotient e
  | .trivialDecrease, w | .fletcherRadius, w => w.relief = 1 ∨
      0 < e.record.bestLength ∧ w.relief = quotient e
  | _, _ => True

theorem relieves_recomputedStep (hw : Relieves e .recomputedStep w) :
    Relieves e w.recomputedStep.1 w.recomputedStep.2 :=
  recomputedStep_elim (fun _ => hw) (fun _ => trivial) (fun _ => hw) (fun _ => hw)
    (fun _ => .inl hw.1) (fun _ => hw) trivial

theorem relieves_restoreBest (hp : Pace .restoreBest w) (hw : Relieves e .restoreBest w) :
    Relieves e w.restoreBest.1 w.restoreBest.2 := by
  obtain ⟨hone, htrial, hlength⟩ := hw
  refine restoreBest_elim (fun _ => .inl hone) fun hgain => ?_
  rw [htrial, hlength]
  split
  · exact .inl hone
  · refine .inr ⟨?_, rfl⟩
    rcases hp.2 (not_le.mp hgain) with hpos | hidle
    · exact .inl (hlength ▸ hpos)
    · exact .inr ⟨hidle, not_le.mp hgain⟩

theorem relieves_classifyDecrease (hc : c.Paced) (hw : Relieves e .classifyDecrease w) :
    Relieves e (w.classifyDecrease c).1 (w.classifyDecrease c).2 := by
  refine classifyDecrease_elim (fun _ => trivial) fun htrivial => ?_
  rcases hw with hone | ⟨hpos | ⟨hidle, hgain⟩, hrelief⟩
  · exact .inl hone
  · exact .inr ⟨hpos, hrelief⟩
  · have hforetold := mul_nonpos_of_nonneg_of_nonpos hc.tuner2 hidle
    exact absurd (hforetold.trans_lt (sub_pos.mpr hgain)) htrivial

theorem relieves_nontrivialDecrease :
    Relieves e (w.nontrivialDecrease c).1 (w.nontrivialDecrease c).2 :=
  nontrivialDecrease_elim trivial (fun _ => trivial) (.inl rfl)

theorem relieves_later (hnode : node = .falseConvergenceTest ∨ node = .goodDecrease ∨
    node = .resumeAfterConvergence ∨ node = .convergenceTests ∨ node = .singularScreen ∨
    node = .singularStepLength ∨ node = .requestProbe) (entry : Verdict) :
    Relieves e (w.transition c entry node).1 (w.transition c entry node).2 := by
  rcases hnode with rfl | rfl | rfl | rfl | rfl | rfl | rfl
  all_goals
    simp only [transition, falseConvergenceTest, goodDecrease, resumeAfterConvergence,
      convergenceTests, singularScreen, singularStepLength, requestProbe]
    repeat' split
    all_goals trivial

theorem relieves_transition (hc : c.Paced) (entry : Verdict) (hp : Pace node w)
    (hw : Relieves e node w) :
    Relieves e (w.transition c entry node).1 (w.transition c entry node).2 := by
  cases node with
  | beginIteration => exact beginIteration_elim (fun _ => trivial) fun _ => .inl hw.1
  | retryDecision => exact retryDecision_elim (fun _ => hw) fun _ => .inl hw.1
  | newModelTried => exact hw
  | recomputedStep => exact relieves_recomputedStep hw
  | checkOversize => exact checkOversize_elim (fun _ => hw) (fun _ _ => hw) fun _ _ => trivial
  | compareWithBest =>
    exact compareWithBest_elim (fun _ => .inl hw.1) (fun _ _ => hw) fun _ _ => hw
  | restoreBest => exact relieves_restoreBest hp hw
  | measureStep => exact measureStep_elim (fun _ => hw) fun _ => hw
  | classifyDecrease => exact relieves_classifyDecrease hc hw
  | trivialDecrease =>
    change Relieves e w.trivialDecrease.1 w.trivialDecrease.2
    unfold Pass.trivialDecrease
    dsimp only
    split <;> split <;> exact hw
  | nontrivialDecrease => exact relieves_nontrivialDecrease
  | falseConvergenceTest => exact relieves_later (by decide) entry
  | goodDecrease => exact relieves_later (by decide) entry
  | resumeAfterConvergence => exact relieves_later (by decide) entry
  | convergenceTests => exact relieves_later (by decide) entry
  | singularScreen => exact relieves_later (by decide) entry
  | singularStepLength => exact relieves_later (by decide) entry
  | requestProbe => exact relieves_later (by decide) entry
  | fletcherRadius | shrink | saveBest | keepRadius | recordCode | probed | singularTest
  | done => trivial

end Pass

namespace Search

theorem relieves_entry (he : e.Ready) : Pass.Relieves e e.verdict.entry e.pass :=
  he.entry_elim (fun _ => ⟨rfl, rfl, rfl⟩) (fun _ => ⟨rfl, rfl, rfl⟩) (fun _ => ⟨rfl, rfl, rfl⟩)
    fun _ => ⟨rfl, rfl, rfl⟩

section

variable (he : e.Ready)
include he

theorem Visits.putsBack (h : e.Visits c .restoreBest w) : ¬e.Opens ∧
    w.search.record.bestF = e.record.bestF ∧ w.search.iterate.f₀ = e.iterate.f₀ ∧
    w.search.record.bestLength = e.record.bestLength ∧
    w.search.record.bestStep = e.record.bestStep := by
  obtain ⟨k, m, b, heq, hopens, -⟩ :=
    h.invariant (Pass.Flow c e) (Pass.flow_entry he) (Pass.flow_transition he e.comparable)
  rw [heq]
  exact ⟨hopens, rfl, rfl, rfl, rfl⟩

/-- Where the radius is made smaller, the factor is one or a quotient that can be formed, and it
is zero only for a step that changes nothing. -/
theorem Visits.relieved (hc : c.Paced) (hp : e.Paced) (h : e.Visits c .fletcherRadius w) :
    (w.relief = 1 ∨ 0 < e.record.bestLength ∧ w.relief = Pass.quotient e) ∧
      (0 < w.relief ∨ w.search.record.change = 0) := by
  have hboth : Pass.Pace .fletcherRadius w ∧ Pass.Relieves e .fletcherRadius w :=
    h.invariant (fun node w => Pass.Pace node w ∧ Pass.Relieves e node w)
      ⟨pace_entry he hp, relieves_entry he⟩ fun ⟨hpace, hrelieves⟩ =>
        ⟨Pass.pace_transition hc e.verdict hpace,
          Pass.relieves_transition hc e.verdict hpace hrelieves⟩
  exact ⟨hboth.2, hboth.1⟩

end

end Search

end LeastSquares
