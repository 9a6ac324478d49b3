import LeastSquares.Proofs.Assess.Judgement

namespace LeastSquares

variable {α : Type} [Scalar α] {p : Nat} (c : Config α)

namespace Pass

theorem transition_iterate (v : Verdict) (node : Node) (w : Pass α p) : ∃ x f model,
    (w.transition c v node).2.search.iterate = { w.search.iterate with x, f, model } := by
  cases node with
  | compareWithBest =>
    simp only [transition, compareWithBest]
    split
    · exact ⟨_, _, _, rfl⟩
    · split <;> exact ⟨_, _, _, rfl⟩
  | restoreBest =>
    simp only [transition, restoreBest]
    split <;> exact ⟨_, _, _, rfl⟩
  | measureStep =>
    simp only [transition, measureStep]
    split <;> exact ⟨_, _, _, rfl⟩
  | trivialDecrease =>
    simp only [transition, trivialDecrease]
    split <;> split <;> exact ⟨_, _, _, rfl⟩
  | _ =>
    simp only [transition, beginIteration, retryDecision, newModelTried, recomputedStep,
      checkOversize, shrink, classifyDecrease, nontrivialDecrease, fletcherRadius,
      falseConvergenceTest, goodDecrease, saveBest, keepRadius, resumeAfterConvergence, recordCode,
      convergenceTests, singularScreen, singularStepLength, requestProbe, probed, singularTest]
    (repeat' split) <;> exact ⟨_, _, _, rfl⟩

end Pass

theorem assess_iterate (e : Search α p) : ∃ x f model,
    (assess c e).iterate = { e.iterate with x, f, model } := by
  have hstep : ∀ {node : Node} {w : Pass α p},
      (∃ x f model, w.search.iterate = { e.iterate with x, f, model }) →
        ∃ x f model, (w.transition c e.verdict node).2.search.iterate =
          { e.iterate with x, f, model } := by
    rintro node w ⟨x, f, model, hw⟩
    obtain ⟨x', f', model', hnext⟩ := Pass.transition_iterate c e.verdict node w
    rw [hw] at hnext
    exact ⟨x', f', model', hnext⟩
  exact Pass.run_invariant @hstep Node.longest ⟨_, _, _, rfl⟩

end LeastSquares
