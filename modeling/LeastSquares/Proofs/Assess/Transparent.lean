import LeastSquares.Proofs.Assess.Path
import LeastSquares.Proofs.Assess.Endless
import LeastSquares.Proofs.Assess.Precedence
import LeastSquares.Proofs.Assess.Probe
import LeastSquares.Proofs.Mirrored

namespace LeastSquares

variable {α : Type} {p : Nat}

namespace Pass

/-- What will be given unless a probe says otherwise: a false convergence, or the verdict that was
recorded, which does not end the fit. -/
def Decided (w : Pass α p) : Prop :=
  w.search.verdict = .falseConverged ∨
    w.search.verdict = w.search.record.resume ∧ w.search.record.resume.code ≤ 5

variable {w : Pass α p}

theorem Decided.ne_probe (h : w.Decided) : w.search.verdict ≠ .probe := by
  intro hprobe
  cases h with
  | inl h =>
    rw [h] at hprobe
    cases hprobe
  | inr h =>
    rw [← h.1, hprobe] at h
    exact absurd h.2 (by decide)

variable [Scalar α]

theorem Decided.requestProbe_search (hw : w.Decided)
    (hasks : w.requestProbe.2.search.verdict = .probe) :
    w.requestProbe.2.search = { w.search with
      verdict := .probe
      record := { w.search.record with
        bestSlope := w.search.trial.slope
        bestLength :=
          if w.search.verdict = .falseConverged then -w.search.trial.length
          else w.search.trial.length
        bestReduction := w.search.trial.reduction
        bestStep := w.search.trial.step } } := by
  unfold requestProbe at hasks ⊢
  by_cases hknown : w.search.trial.newtonReduction < 0
  · rw [if_pos hknown] at hasks
    exact absurd hasks hw.ne_probe
  · rw [if_neg hknown]
    rfl

/-- A probe that is asked for has been asked for at its node, with what was decided by then. -/
def Asked (path : List (Node × Pass α p)) (w : Pass α p) : Prop :=
  w.search.verdict = .probe →
    ∃ w', (.requestProbe, w') ∈ path ∧ w'.Decided ∧ w.search = w'.requestProbe.2.search

/-- What is known of the verdict before each node of an assessment that a trial was made for. -/
def Deciding (path : List (Node × Pass α p)) : Node → Pass α p → Prop
  | .falseConvergenceTest, w => w.search.record.resume.code ≤ 5
  | .convergenceTests, w | .singularStepLength, w | .requestProbe, w => w.Decided
  | .singularScreen, w => w.search.verdict.Final ∨ w.Decided
  | .singularTest, w => w.search.verdict ≠ .probe
  | .probed, _ | .resumeAfterConvergence, _ => False
  | .done, w => Asked path w
  | _, w => w.search.verdict.code ≤ 5

variable {c : Config α} {entry : Verdict} {path : List (Node × Pass α p)}

theorem asked_of_ne (h : w.search.verdict ≠ .probe) : Asked path w :=
  fun hprobe => absurd hprobe h

theorem deciding_recomputedStep (hw : w.search.verdict.code ≤ 5) :
    Deciding path w.recomputedStep.1 w.recomputedStep.2 :=
  recomputedStep_elim (fun _ => hw) (fun _ => hw) (fun _ => hw) (fun _ => hw) (fun _ => hw)
    (fun _ => hw) (asked_of_ne Verdict.noConfusion)

theorem deciding_nontrivialDecrease (hw : w.search.verdict.code ≤ 5) :
    Deciding path (w.nontrivialDecrease c).1 (w.nontrivialDecrease c).2 :=
  nontrivialDecrease_elim hw (fun _ => (by decide : Verdict.otherOrAccept.code ≤ 5))
    (by decide : Verdict.accept.code ≤ 5)

theorem deciding_falseConvergenceTest (hw : w.search.record.resume.code ≤ 5) :
    Deciding path (w.falseConvergenceTest c).1 (w.falseConvergenceTest c).2 :=
  falseConvergenceTest_elim (fun _ => .inl rfl) (fun _ _ => hw) fun _ _ => hw

theorem deciding_goodDecrease (hw : w.search.verdict.code ≤ 5) :
    Deciding path (w.goodDecrease c).1 (w.goodDecrease c).2 :=
  goodDecrease_elim hw (fun _ => (by decide : Verdict.accept.code ≤ 5))
    fun _ _ => (by decide : Verdict.recompute.code ≤ 5)

theorem deciding_convergenceTests (hw : w.Decided) :
    Deciding path (w.convergenceTests c).1 (w.convergenceTests c).2 := by
  refine convergenceTests_elim (fun v hv => ?_) fun v threshold hv => ?_
  · apply asked_of_ne
    cases hv with
    | inl hfinal =>
      rintro rfl
      exact hfinal.1
    | inr hsame => exact hsame ▸ hw.ne_probe
  · cases hv with
    | inl hfinal => exact .inl hfinal.1
    | inr hsame => exact .inr (hsame ▸ hw)

theorem deciding_singularScreen (hw : w.search.verdict.Final ∨ w.Decided) :
    Deciding path (w.singularScreen c).1 (w.singularScreen c).2 := by
  refine singularScreen_elim (asked_of_ne fun hprobe => ?_) fun hcode => ?_
  · cases hw with
    | inl hfinal =>
      rw [hprobe] at hfinal
      exact hfinal
    | inr hdecided => exact hdecided.ne_probe hprobe
  · exact hw.elim (fun hfinal => .inl (hfinal.eq_falseConverged hcode)) id

theorem deciding_requestProbe (hmem : (.requestProbe, w) ∈ path) (hw : w.Decided) :
    Deciding path w.requestProbe.1 w.requestProbe.2 := by
  by_cases hknown : w.search.trial.newtonReduction < 0
  · rw [requestProbe, if_pos hknown]
    exact hw.ne_probe
  · have hdone : w.requestProbe.1 = .done := by rw [requestProbe, if_neg hknown]
    rw [hdone]
    exact fun _ => ⟨w, hmem, hw, rfl⟩

theorem deciding_singularTest (hw : w.search.verdict ≠ .probe) :
    Deciding path (w.singularTest c).1 (w.singularTest c).2 := by
  exact singularTest_elim (asked_of_ne Verdict.noConfusion) (asked_of_ne hw)

theorem deciding_restoreBest (hw : w.search.verdict.code ≤ 5) :
    Deciding path w.restoreBest.1 w.restoreBest.2 := by
  exact restoreBest_elim (fun _ => hw) fun _ => hw

theorem deciding_measureStep (hw : w.search.verdict.code ≤ 5) :
    Deciding path w.measureStep.1 w.measureStep.2 := by
  exact measureStep_elim (fun _ => hw) fun _ => hw

theorem deciding_classifyDecrease (hw : w.search.verdict.code ≤ 5) :
    Deciding path (w.classifyDecrease c).1 (w.classifyDecrease c).2 := by
  exact classifyDecrease_elim (fun _ => hw) fun _ => hw

theorem deciding_trivialDecrease :
    Deciding path w.trivialDecrease.1 w.trivialDecrease.2 := by
  unfold trivialDecrease
  dsimp only
  by_cases hlimit : w.search.iterate.stageLimit ≤ w.search.record.stage
  · rw [if_pos hlimit]
    exact (by decide : Verdict.recompute.code ≤ 5)
  · rw [if_neg hlimit]
    exact (by decide : Verdict.otherOrShorter.code ≤ 5)

theorem deciding_transition {node : Node} (hmem : (node, w) ∈ path)
    (hw : Deciding path node w) :
    Deciding path (w.transition c entry node).1 (w.transition c entry node).2 := by
  cases node with
  | beginIteration => exact beginIteration_elim (fun _ => hw) fun _ => hw
  | retryDecision => exact retryDecision_elim (fun _ => hw) fun _ => hw
  | newModelTried => exact hw
  | recomputedStep => exact deciding_recomputedStep hw
  | checkOversize => exact checkOversize_elim (fun _ => hw) (fun _ _ => hw) fun _ _ => hw
  | shrink => exact asked_of_ne Verdict.noConfusion
  | compareWithBest => exact compareWithBest_elim (fun _ => hw) (fun _ _ => hw) fun _ _ => hw
  | restoreBest => exact deciding_restoreBest hw
  | measureStep => exact deciding_measureStep hw
  | classifyDecrease => exact deciding_classifyDecrease hw
  | trivialDecrease => exact deciding_trivialDecrease
  | nontrivialDecrease => exact deciding_nontrivialDecrease hw
  | fletcherRadius => exact hw
  | falseConvergenceTest => exact deciding_falseConvergenceTest hw
  | goodDecrease => exact deciding_goodDecrease hw
  | saveBest => exact hw
  | keepRadius => exact (by decide : Verdict.acceptByGradient.code ≤ 5)
  | resumeAfterConvergence => exact hw.elim
  | recordCode => exact .inr ⟨rfl, hw⟩
  | convergenceTests => exact deciding_convergenceTests hw
  | singularScreen => exact deciding_singularScreen hw
  | singularStepLength =>
    exact singularStepLength_elim (asked_of_ne hw.ne_probe) hw
  | requestProbe => exact deciding_requestProbe hmem hw
  | probed => exact hw.elim
  | singularTest => exact deciding_singularTest hw
  | done => exact hw

theorem deciding_entry (hentry : entry.code ≤ 5) (hw : w.search.verdict = entry) :
    Deciding path entry.entry w := by
  have hcode : w.search.verdict.code ≤ 5 := hw ▸ hentry
  cases entry with
  | otherOrShorter | otherOrAccept | acceptByGradient | accept | recompute => exact hcode
  | _ => exact absurd hentry (by decide)

end Pass

namespace Search

variable [Scalar α]

/-- The step that was judged is back in its place, and nothing of the search was lost. -/
structure PutBack (s s' : Search α p) : Prop where
  iterate : s'.iterate = s.iterate
  record : s'.record = { s.record with restored := false, switched := false }
  step : s'.trial.step = s.trial.step
  slope : s'.trial.slope = s.trial.slope
  reduction : s'.trial.reduction = s.trial.reduction
  length : s'.trial.length = Scalar.abs s.trial.length

variable {c : Config α} {e s : Search α p} {t : Trial α p}

theorem asked_of_probe (he : e.verdict.code ≤ 5) (hs : (assess c e).verdict = .probe) :
    ∃ w, (.requestProbe, w) ∈ e.path c ∧ w.Decided ∧ assess c e = w.requestProbe.2.search := by
  have hlast := Pass.path_invariant (Pass.Deciding (e.path c)) (Pass.deciding_entry he rfl)
    (fun _ _ hmem hw => Pass.deciding_transition hmem hw) _ (e.run_mem_path c)
  cases e.leads c with
  | inl hdone =>
    rw [hdone] at hlast
    exact hlast hs
  | inr hendless =>
    have hcode : (assess c e).verdict.code ≤ 5 := hendless.1
    rw [hs] at hcode
    exact absurd hcode (by decide)

variable [Scalar.Mirrored α] {w : Pass α p}

theorem putBack_assess (hw : w.Decided) (hasks : s = w.requestProbe.2.search)
    (hs : s.verdict = .probe) : s.PutBack (assess c { s with trial := t }) := by
  obtain ⟨v, heq, -⟩ := assess_probe c (s := { s with trial := t }) hs
  have hnoted := hw.requestProbe_search (hasks ▸ hs)
  rw [← hasks] at hnoted
  rw [heq]
  refine ⟨rfl, rfl, ?_, ?_, ?_, ?_⟩ <;> dsimp only <;> rw [hnoted]
  split
  · exact Scalar.Mirrored.abs_neg _
  · rfl

theorem assess_answer (hs : s.verdict = .probe) :
    (assess c { s with trial := t }).verdict =
      if t.reduction ≤ c.singularTol * Scalar.abs s.iterate.f₀ then .singularConverged
      else if s.record.bestLength ≤ 0 then .falseConverged else s.record.resume := by
  have hrun : assess c { s with trial := t } =
      ((pass { s with trial := t }).probed.2.singularTest c).2.search := by
    rw [assess]
    dsimp only
    rw [hs]
    rfl
  have hanswer : (assess c { s with trial := t }).verdict =
      if - -t.reduction ≤ c.singularTol * Scalar.abs s.iterate.f₀ then .singularConverged
      else if s.record.bestLength ≤ 0 then .falseConverged else s.record.resume := by
    rw [hrun, Pass.singularTest]
    exact apply_ite (fun w : Pass α p => w.search.verdict) _ _ _
  simpa only [Scalar.Mirrored.neg_neg] using hanswer

theorem decided_of_length (hw : w.Decided) (hasks : s = w.requestProbe.2.search)
    (hs : s.verdict = .probe) (hpos : 0 < s.trial.length) :
    (if s.record.bestLength ≤ 0 then .falseConverged else s.record.resume) =
      w.search.verdict := by
  have hnoted := hw.requestProbe_search (hasks ▸ hs)
  rw [← hasks] at hnoted
  rw [hnoted] at hpos ⊢
  dsimp only at hpos ⊢
  by_cases hfalse : w.search.verdict = .falseConverged
  · simp only [hfalse, Scalar.Mirrored.neg_le_zero hpos, if_true]
  · simp only [hfalse, Scalar.Mirrored.not_le_zero hpos, if_false]
    exact (hw.resolve_left hfalse).1.symm

end Search

/-- The probe of the largest radius is seen in the verdict alone. Whatever was decided when it was
asked for, a false convergence or the verdict recorded, is given after it unless what it foretells
is next to nothing, and all else is as it was. -/
theorem assess_probe_transparent [Scalar α] [Scalar.Mirrored α] (c : Config α) {e : Search α p}
    (he : e.verdict.code ≤ 5) (hprobe : (assess c e).verdict = .probe) (t : Trial α p) :
    let s := assess c e
    let s' := assess c { s with trial := t }
    s.PutBack s' ∧
    (t.reduction ≤ c.singularTol * Scalar.abs s.iterate.f₀ → s'.verdict = .singularConverged) ∧
    ∃ w, (.requestProbe, w) ∈ e.path c ∧ s = w.requestProbe.2.search ∧ w.Decided ∧
      (0 < s.trial.length → s'.trial.length = s.trial.length ∧
        (¬t.reduction ≤ c.singularTol * Scalar.abs s.iterate.f₀ →
          s'.verdict = w.search.verdict)) := by
  intro s s'
  obtain ⟨w, hmem, hw, hasks⟩ := Search.asked_of_probe he hprobe
  have hback : s.PutBack s' := Search.putBack_assess hw hasks hprobe
  have hanswer : s'.verdict = _ := Search.assess_answer hprobe
  refine ⟨hback, fun hflat => ?_, w, hmem, hasks, hw, fun hpos => ⟨?_, fun hflat => ?_⟩⟩
  · rw [hanswer, if_pos hflat]
  · rw [hback.length, Scalar.Mirrored.abs_of_pos hpos]
  · rw [hanswer, if_neg hflat]
    exact Search.decided_of_length hw hasks hprobe hpos

def Search.vanishing : Search Float 1 where
  verdict := .accept
  iterate := ⟨.replicate 1 1, .replicate 1 1, 10, 10, .replicate 1 1, 1, .gaussNewton, 2, false⟩
  trial := ⟨.replicate 1 1e-20, 1e-20, -1e-15, 1e-15, 0, 1, 0⟩
  record := .new 1

def Trial.gaining : Trial Float 1 := ⟨.replicate 1 1, 1, -1, 1, 0, 0, 1⟩

/-- The false convergence of so short a step waits for the probe. -/
theorem assess_probe_transparent_vanishing :
    let c : Config Float := .default
    let s := assess c .vanishing
    let s' := assess c { s with trial := .gaining }
    s.verdict = .probe ∧ 0 < s.trial.length ∧ s'.verdict = .falseConverged ∧ s.PutBack s' ∧
    ∃ w, (.requestProbe, w) ∈ Search.vanishing.path c ∧ w.search.verdict = s'.verdict := by
  intro c s s'
  have hprobe : s.verdict = .probe := by decide +kernel
  have hpos : 0 < s.trial.length := by decide +kernel
  have hgains : ¬Trial.gaining.reduction ≤ c.singularTol * Scalar.abs s.iterate.f₀ := by
    decide +kernel
  have hfalse : s'.verdict = .falseConverged := by decide +kernel
  obtain ⟨hback, -, w, hmem, -, -, hlength⟩ :=
    assess_probe_transparent c (show Search.vanishing.verdict.code ≤ 5 by decide) hprobe .gaining
  exact ⟨hprobe, hpos, hfalse, hback, w, hmem, ((hlength hpos).2 hgains).symm⟩

/-- A length below zero, which no step has, comes back without its sign. -/
theorem assess_probe_unsigned :
    let c : Config Float := .default
    let e : Search Float 1 :=
      { Search.vanishing with trial := { Search.vanishing.trial with length := -1 } }
    let s := assess c e
    let s' := assess c { s with trial := .gaining }
    e.verdict.code ≤ 5 ∧ s.verdict = .probe ∧ s.trial.length = -1 ∧ s'.trial.length = 1 ∧
      s'.trial.length ≠ s.trial.length := by
  decide +kernel

end LeastSquares
