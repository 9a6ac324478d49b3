import LeastSquares.Proofs.Assess.Protocol

namespace LeastSquares

variable {α : Type} {p : Nat}

namespace Search

variable (e : Search α p)

/-- As long as no other model was tried there is only the one. -/
def Alone (m : Model) : Prop :=
  e.record.stage = 1 ∨ e.record.stage = -1 → e.iterate.model = m ∧ e.record.bestModel = m

/-- How the models are found where every trial of the iteration was judged to its end. -/
def Paired : Prop :=
  match e.verdict with
  | .acceptByGradient | .accept => e.iterate.model = e.record.bestModel
  | .otherOrShorter | .otherOrAccept => e.iterate.model ≠ e.record.bestModel
  | _ => e.Alone e.iterate.model

variable {e} {m : Model}

theorem Alone.negated (h : e.Alone m) :
    Alone { e with record := { e.record with stage := -e.record.stage } } m := by
  have hneg {k : Int32} (hk : -e.record.stage = k) : e.record.stage = -k := by
    rw [← hk, Int32.neg_neg]
  intro hstage
  refine h (hstage.symm.imp (fun hk => ?_) hneg)
  exact (hneg hk).trans (by decide)

end Search

namespace Pass

/-- What holds of the models before each node, where `m` is that of the trial. -/
def Paired (m : Model) : Node → Pass α p → Prop
  | .beginIteration, w => w.search.iterate.model = m ∧ w.search.record.bestModel = m
  | .retryDecision, w | .newModelTried, w => w.search.iterate.model = m
  | .recomputedStep, w => w.search.iterate.model = m ∧ w.search.Alone m
  | _, w => w.search.Alone m

variable [Scalar α] {c : Config α} {v : Verdict} {m : Model} {node : Node} {w : Pass α p}

omit [Scalar α] in
theorem paired_newModelTried (hcounts : w.search.verdict.Counts w.search.record.stage)
    (hm : w.search.iterate.model = m) : Paired m w.newModelTried.1 w.newModelTried.2 := by
  refine ⟨hm, fun hstage => ?_⟩
  change w.search.record.stage + 1 = 1 ∨ w.search.record.stage + 1 = -1 at hstage
  rcases hcounts with ⟨hk, -⟩ | ⟨hk, -⟩ <;> rw [hk] at hstage <;> exact absurd hstage (by decide)

omit [Scalar α] in
theorem paired_recomputedStep (hm : w.search.iterate.model = m) (hw : w.search.Alone m) :
    Paired m w.recomputedStep.1 w.recomputedStep.2 := by
  refine recomputedStep_elim (fun _ => hw) (fun _ => hw) (fun _ => hm) (fun _ => hm) (fun _ => ?_)
    (fun _ => ?_) ?_
  · exact hw.negated
  · exact hw.negated
  · exact hw.negated

theorem paired_transition (hw : Timed v node w) (hm : Paired m node w) :
    Paired m (w.transition c v node).1 (w.transition c v node).2 := by
  cases node with
  | beginIteration =>
    simp only [transition, beginIteration]
    split <;> exact fun _ => hm
  | retryDecision =>
    simp only [transition, retryDecision]
    split
    · exact hm
    · next hsame =>
      have hbest : w.search.iterate.model = w.search.record.bestModel := Decidable.not_not.mp hsame
      exact fun _ => ⟨hm, hbest.symm.trans hm⟩
  | newModelTried => exact paired_newModelTried hw.place hm
  | recomputedStep => exact paired_recomputedStep hm.1 hm.2
  | checkOversize =>
    simp only [transition, checkOversize]
    split
    · exact hm
    · split
      · exact hm
      · exact hm.negated
  | compareWithBest =>
    simp only [transition, compareWithBest]
    split
    · exact hm
    · split
      · exact fun hstage => ⟨(hm hstage).2, (hm hstage).2⟩
      · exact hm
  | trivialDecrease =>
    simp only [transition, trivialDecrease]
    split <;> split <;>
      first | exact hm | exact fun hstage => ⟨(hm hstage).1, (hm hstage).1⟩
  | saveBest => exact fun hstage => ⟨(hm hstage).1, (hm hstage).1⟩
  | _ =>
    simp only [transition, shrink, restoreBest, measureStep, classifyDecrease,
      nontrivialDecrease, fletcherRadius, falseConvergenceTest, goodDecrease, keepRadius,
      resumeAfterConvergence, recordCode, convergenceTests, singularScreen, singularStepLength,
      requestProbe, probed, singularTest]
    (repeat' split) <;> exact hm

end Pass

namespace Search

variable [Scalar α] {c : Config α} {e s : Search α p}

theorem Paired.assess (hpaired : e.Paired) (he : e.Timely) :
    (assess c e).Alone e.iterate.model := by
  have hentry : Pass.Paired e.iterate.model e.verdict.entry e.pass := by
    unfold Search.Paired at hpaired
    have htimely := he.entry
    cases hv : e.verdict <;> rw [hv] at hpaired htimely
    case acceptByGradient | accept => exact ⟨rfl, hpaired.symm⟩
    case otherOrShorter | otherOrAccept => exact rfl
    case recompute => exact ⟨rfl, hpaired⟩
    case probe => exact hpaired
    all_goals exact htimely.elim
  have hstep : ∀ {node : Node} {w : Pass α p},
      Pass.Timed e.verdict node w ∧ Pass.Paired e.iterate.model node w →
        Pass.Timed e.verdict (w.transition c e.verdict node).1 (w.transition c e.verdict node).2 ∧
        Pass.Paired e.iterate.model (w.transition c e.verdict node).1
          (w.transition c e.verdict node).2 :=
    fun h => ⟨Pass.timed_transition h.1, Pass.paired_transition h.1 h.2⟩
  have hrun := Pass.run_invariant @hstep Node.longest ⟨Pass.timed_entry he, hentry⟩
  rw [he.ends] at hrun
  exact hrun.2

omit [Scalar α] in
theorem Alone.again {m : Model} (h : s.Alone m) (hv : s.verdict = .recompute) (radius : α) :
    Paired { s with iterate := { s.iterate with radius } } := by
  unfold Paired
  dsimp only
  rw [hv]
  exact fun hstage => ⟨rfl, (h hstage).2.trans (h hstage).1.symm⟩

omit [Scalar α] in
theorem Alone.other {m : Model} (h : s.Alone m) (hs : s.Answered)
    (hv : s.verdict = .otherOrShorter ∨ s.verdict = .otherOrAccept) :
    Paired { s with iterate := { s.iterate with model := m.other } } := by
  have hstage : s.record.stage = 1 := by
    have hentry := (hs.other hv s.iterate.model).entry
    dsimp only at hentry
    rcases hv with hv | hv <;> rw [hv] at hentry <;> exact hentry.1
  have hbest : m.other ≠ s.record.bestModel := by
    rw [(h (.inl hstage)).2]
    cases m <;> decide
  unfold Paired
  dsimp only
  rcases hv with hv | hv <;> rw [hv] <;> exact hbest

end Search

end LeastSquares
