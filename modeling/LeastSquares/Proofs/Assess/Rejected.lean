import LeastSquares.Proofs.Assess.Noted
import LeastSquares.Proofs.Assess.Relief

namespace LeastSquares

variable {p : Nat}

namespace Search

variable (c : Config ℝ) (e : Search ℝ p)

def Remains : Prop :=
  ∀ w, e.Visits c .restoreBest w → w.search.iterate.f₀ ≤ w.search.record.bestF

/-- Fletcher's factor for a trial that is no gain, which is guarded from below only. -/
noncomputable def fletcher : ℝ :=
  if e.iterate.f₀ < e.iterate.f then
    max c.radfacMin
      (1 / 2 * e.trial.slope / (e.trial.slope + (e.iterate.f₀ - e.iterate.f)))
  else 1 / 2

/-- The step leads uphill, and the objective rises by half of what the slope foretells or more,
but by no more than that. -/
def Climbs : Prop :=
  0 < e.trial.slope ∧ 1 / 2 * e.trial.slope ≤ e.iterate.f - e.iterate.f₀ ∧
    e.iterate.f - e.iterate.f₀ ≤ e.trial.slope

/-- What the next radius rests on after a trial that is no gain. -/
inductive Rated (s : Search ℝ p) : Prop where
  | shrunk : e.iterate.oversized = true → s.trial.length = e.trial.length →
      s.record.radiusFactor = c.decreaseFactor → Rated s
  | measured : s.trial.length = e.trial.length →
      (e.iterate.oversized = true → 0 < e.record.growth ∧ e.iterate.f₀ ≤ e.record.bestF) →
      c.falseConvergeTol < relativeStep e.iterate.d e.iterate.x e.iterate.x₀ →
      s.record.radiusFactor = e.fletcher c → Rated s

variable {c e} {s s' : Search ℝ p}

theorem fletcher_pos (hmin : 0 < c.radfacMin) : 0 < e.fletcher c := by
  unfold fletcher
  split
  · exact lt_max_of_lt_left hmin
  · norm_num

theorem fletcher_lt_one (hmin : c.radfacMin < 1) (h : ¬e.Climbs) : e.fletcher c < 1 := by
  unfold fletcher
  split
  · next hrise =>
    refine max_lt hmin ?_
    have hdown : e.iterate.f₀ - e.iterate.f < 0 := sub_neg.mpr hrise
    rcases le_or_gt e.trial.slope 0 with hslope | hslope
    · rw [div_lt_one_of_neg (by linarith)]
      linarith
    · rcases lt_or_ge (e.iterate.f - e.iterate.f₀) (1 / 2 * e.trial.slope) with hless | hmore
      · rw [div_lt_one (by linarith)]
        linarith
      · have hfar : e.trial.slope < e.iterate.f - e.iterate.f₀ :=
          lt_of_not_ge fun hnear => h ⟨hslope, hmore, hnear⟩
        refine (div_neg_of_pos_of_neg ?_ ?_).trans one_pos
        · linarith
        · linarith
  · norm_num

theorem one_le_fletcher (hmore : 1 / 2 * e.trial.slope ≤ e.iterate.f - e.iterate.f₀)
    (hless : e.iterate.f - e.iterate.f₀ < e.trial.slope) : 1 ≤ e.fletcher c := by
  unfold fletcher
  rw [if_pos (by linarith)]
  refine le_max_of_le_right ?_
  rw [one_le_div (by linarith)]
  linarith

theorem Rated.congr (h : e.Rated c s) (hlength : s'.trial.length = s.trial.length)
    (hfactor : s'.record.radiusFactor = s.record.radiusFactor) : e.Rated c s' := by
  cases h with
  | shrunk hover hl hr => exact .shrunk hover (hlength.trans hl) (hfactor.trans hr)
  | measured hl hgrowth hfar hr =>
    exact .measured (hlength.trans hl) hgrowth hfar (hfactor.trans hr)

theorem Taken.growth {t : Trial ℝ p} {f : ℝ} {x : Vector ℝ p} {model : Model}
    (h : e.Taken t f x model) (hf : e.iterate.f₀ ≤ f) (hover : e.iterate.oversized = true) :
    0 < e.record.growth ∧ e.iterate.f₀ ≤ e.record.bestF := by
  cases h with
  | tooFar _ _ hgrowth hbest => exact ⟨hgrowth, hbest⟩
  | tooFarBack _ _ _ hbest => exact absurd hf hbest
  | first _ hfits | better _ hfits | worse _ hfits | back _ hfits =>
    rw [hfits] at hover
    cases hover

theorem Taken.le {b : ℝ} {t : Trial ℝ p} {f : ℝ} {x : Vector ℝ p} {model : Model}
    (h : e.Taken t f x model) (hf : e.iterate.f ≤ b) (hf₀ : e.iterate.f₀ ≤ b) : f ≤ b := by
  cases h with
  | back _ _ _ hgain => exact (not_le.mp hgain).le.trans hf₀
  | tooFarBack _ _ _ hgain => exact (not_le.mp hgain).le.trans hf₀
  | _ => exact hf

end Search

namespace Pass

structure Plain (e : Search ℝ p) (w : Pass ℝ p) : Prop where
  relief : w.relief = 1
  trial : w.search.trial = e.trial
  restored : w.search.record.restored = false

structure Measured (e : Search ℝ p) (w : Pass ℝ p) : Prop where
  relief : w.relief = 1
  trial : w.search.trial = e.trial
  f : w.search.iterate.f = e.iterate.f
  change : w.change = relativeStep e.iterate.d e.iterate.x e.iterate.x₀

structure Fails (e : Search ℝ p) (w : Pass ℝ p) : Prop where
  trial : w.search.trial = e.trial
  growth : e.iterate.oversized = true → 0 < e.record.growth ∧ e.iterate.f₀ ≤ e.record.bestF
  change : w.search.record.change = relativeStep e.iterate.d e.iterate.x e.iterate.x₀
  stays : w.search.iterate.f = w.search.iterate.f₀

/-- What is known of the next radius before each node, if the trial is no gain and no better step
is put back. The nodes for a gain are not come to. -/
def Rating (c : Config ℝ) (e : Search ℝ p) : Node → Pass ℝ p → Prop
  | .beginIteration, w | .retryDecision, w | .newModelTried, w | .recomputedStep, w
  | .checkOversize, w | .compareWithBest, w | .restoreBest, w | .measureStep, w => w.Plain e
  | .classifyDecrease, w => w.Measured e
  | .trivialDecrease, w =>
      w.Measured e ∧ w.search.record.decrease = e.iterate.f₀ - e.iterate.f
  | .fletcherRadius, w => w.Fails e ∧ w.relief = 1 ∧
      w.search.record.decrease = e.iterate.f₀ - e.iterate.f
  | .falseConvergenceTest, w => w.Fails e ∧ w.search.record.radiusFactor = e.fletcher c
  | .recordCode, w => e.Rated c w.search
  | .convergenceTests, w | .singularStepLength, w | .requestProbe, w =>
      w.search.verdict = .falseConverged ∨ e.Rated c w.search
  | .singularScreen, w | .singularTest, w => w.search.verdict.Final ∨ e.Rated c w.search
  | .shrink, _ => True
  | .done, w => w.search.verdict.Final ∨ e.Rated c w.search ∨
      w.search.verdict = .probe ∧ w.search.record.bestLength = -w.search.trial.length
  | .nontrivialDecrease, _ | .goodDecrease, _ | .saveBest, _ | .keepRadius, _
  | .resumeAfterConvergence, _ | .probed, _ => False

variable {c : Config ℝ} {e : Search ℝ p} {w : Pass ℝ p}

theorem rating_recomputedStep (hflow : Flow c e .recomputedStep w)
    (hw : Rating c e .recomputedStep w) :
    Rating c e w.recomputedStep.1 w.recomputedStep.2 := by
  have hplain : (w.note { w.search.record with stage := -w.search.record.stage }).Plain e :=
    ⟨hw.relief, hw.trial, hw.restored⟩
  rcases recomputedStep_spec hflow with heq | heq | ⟨node, heq, rfl | rfl | rfl | rfl⟩ <;>
    rw [heq]
  · exact hw
  · trivial
  · exact hplain
  · exact hplain
  · exact hplain
  · exact hplain

theorem rating_shrink (hflow : Flow c e .shrink w) :
    Rating c e (w.shrink c).1 (w.shrink c).2 :=
  .inr (.inl (.shrunk hflow.oversized (congrArg Trial.length hflow.trial) rfl))

theorem rating_restoreBest (hstays : e.Remains c) (hvisits : e.Visits c .restoreBest w)
    (hw : Rating c e .restoreBest w) : Rating c e w.restoreBest.1 w.restoreBest.2 := by
  exact restoreBest_elim (fun _ => hw) fun hgain => absurd (hstays w hvisits) hgain

theorem rating_measureStep (hflow : Flow c e .measureStep w) (hw : Rating c e .measureStep w) :
    Rating c e w.measureStep.1 w.measureStep.2 := by
  obtain ⟨k, -, ⟨⟨-, -, -, hiterate⟩, -⟩ | ⟨⟨hrestored, -⟩, -⟩⟩ := hflow
  · refine measureStep_elim (fun _ => ?_) (by simp [hw.restored])
    refine ⟨hw.relief, hw.trial, ?_, ?_⟩
    · dsimp only
      rw [hiterate]
    · dsimp only
      rw [hiterate]
  · rw [hw.restored] at hrestored
    cases hrestored

section

variable (hrise : e.iterate.f₀ ≤ e.iterate.f)
include hrise

theorem rating_classifyDecrease (hreduction : 0 ≤ c.tuner2 * e.trial.reduction)
    (hflow : Flow c e .classifyDecrease w) (hw : Rating c e .classifyDecrease w) :
    Rating c e (w.classifyDecrease c).1 (w.classifyDecrease c).2 := by
  have hf₀ := hflow.1.f₀
  have hf := hw.f
  unfold classifyDecrease
  dsimp only
  rw [hf₀, hf, hw.trial, if_neg (not_lt.mpr ((sub_nonpos.mpr hrise).trans hreduction))]
  exact ⟨⟨hw.relief, hw.trial, hw.f, hw.change⟩, rfl⟩

theorem rating_trivialDecrease (hflow : Flow c e .trivialDecrease w)
    (hw : Rating c e .trivialDecrease w) :
    Rating c e w.trivialDecrease.1 w.trivialDecrease.2 := by
  obtain ⟨hframed, hmoved⟩ := hflow
  obtain ⟨hmeasured, hdecrease⟩ := hw
  have hgrowth := hmoved.growth (hmeasured.f.symm ▸ hrise)
  have hno : w.search.iterate.f₀ ≤ w.search.iterate.f := by
    rw [hframed.f₀, hmeasured.f]
    exact hrise
  unfold trivialDecrease
  dsimp only
  rw [if_pos hno]
  split
  · exact ⟨⟨hmeasured.trial, hgrowth, hmeasured.change, rfl⟩, hmeasured.relief, hdecrease⟩
  · exact ⟨⟨hmeasured.trial, hgrowth, hmeasured.change, rfl⟩, hmeasured.relief, hdecrease⟩

end

theorem rating_fletcherRadius (hw : Rating c e .fletcherRadius w) :
    Rating c e (w.fletcherRadius c).1 (w.fletcherRadius c).2 := by
  obtain ⟨hfails, hrelief, hdecrease⟩ := hw
  have hdown : e.trial.slope + (e.iterate.f₀ - e.iterate.f) < e.trial.slope ↔
      e.iterate.f₀ < e.iterate.f := by
    rw [add_lt_iff_neg_left, sub_neg]
  refine ⟨⟨hfails.trial, hfails.growth, hfails.change, hfails.stays⟩, ?_⟩
  unfold fletcherRadius
  dsimp only [note]
  rw [hfails.trial, hrelief, hdecrease, one_mul, mul_one, Search.fletcher]
  exact if_congr hdown rfl rfl

theorem rating_falseConvergenceTest (hw : Rating c e .falseConvergenceTest w) :
    Rating c e (w.falseConvergenceTest c).1 (w.falseConvergenceTest c).2 := by
  obtain ⟨hfails, hfactor⟩ := hw
  unfold falseConvergenceTest
  dsimp only
  split
  · exact .inl rfl
  next hfar =>
  rw [if_neg (by rw [hfails.stays]; exact lt_irrefl _)]
  rw [hfails.change] at hfar
  exact .measured (congrArg Trial.length hfails.trial) hfails.growth (not_le.mp hfar) hfactor

theorem rating_done (hw : w.search.verdict.Final ∨ e.Rated c w.search) : Rating c e .done w :=
  hw.imp_right .inl

theorem rating_undone (hw : w.search.verdict = .falseConverged ∨ e.Rated c w.search) :
    w.search.verdict.Final ∨ e.Rated c w.search :=
  hw.imp_left fun hfalse => by
    rw [hfalse]
    trivial

theorem rating_convergenceTests (hw : Rating c e .convergenceTests w) :
    Rating c e (w.convergenceTests c).1 (w.convergenceTests c).2 := by
  have hlate := rating_undone hw
  have hnext {v : Verdict} (hv : w.search.verdict.Next v) :
      v.Final ∨ e.Rated c w.search := by
    rcases hv with ⟨hfinal, -⟩ | rfl
    · exact .inl hfinal
    · exact hlate
  refine convergenceTests_elim (fun v hv => ?_) fun v _ hv => ?_
  · exact rating_done ((hnext hv).imp_right fun h => h.congr rfl rfl)
  · exact (hnext hv).imp_right fun h => h.congr rfl rfl

theorem rating_singularScreen (hw : Rating c e .singularScreen w) :
    Rating c e (w.singularScreen c).1 (w.singularScreen c).2 := by
  refine singularScreen_elim (rating_done hw) fun hcode => ?_
  exact hw.imp_left fun hfinal => hfinal.eq_falseConverged hcode

theorem rating_requestProbe (hw : Rating c e .requestProbe w) :
    Rating c e w.requestProbe.1 w.requestProbe.2 := by
  refine requestProbe_elim (rating_undone hw) (.inr (hw.symm.imp (fun h => ?_) fun hfalse => ?_))
  · exact h.congr rfl rfl
  · exact ⟨rfl, if_pos hfalse⟩

theorem rating_transition (hrise : e.iterate.f₀ ≤ e.iterate.f)
    (hreduction : 0 ≤ c.tuner2 * e.trial.reduction) (hstays : e.Remains c) {node : Node}
    (hvisits : e.Visits c node w) (hflow : Flow c e node w) (hw : Rating c e node w) :
    Rating c e (w.transition c e.verdict node).1 (w.transition c e.verdict node).2 := by
  cases node with
  | beginIteration =>
    exact beginIteration_elim (fun _ => trivial) fun _ => ⟨hw.relief, hw.trial, hw.restored⟩
  | retryDecision =>
    exact retryDecision_elim (fun _ => hw) fun _ => ⟨hw.relief, hw.trial, hw.restored⟩
  | newModelTried => exact ⟨hw.relief, hw.trial, hw.restored⟩
  | recomputedStep => exact rating_recomputedStep hflow hw
  | checkOversize => exact checkOversize_elim (fun _ => hw) (fun _ _ => hw) fun _ _ => trivial
  | shrink => exact rating_shrink hflow
  | compareWithBest =>
    exact compareWithBest_elim (fun _ => hw) (fun _ _ => ⟨hw.relief, hw.trial, hw.restored⟩)
      fun _ _ => hw
  | restoreBest => exact rating_restoreBest hstays hvisits hw
  | measureStep => exact rating_measureStep hflow hw
  | classifyDecrease => exact rating_classifyDecrease hrise hreduction hflow hw
  | trivialDecrease => exact rating_trivialDecrease hrise hflow hw
  | fletcherRadius => exact rating_fletcherRadius hw
  | falseConvergenceTest => exact rating_falseConvergenceTest hw
  | recordCode => exact .inr (hw.congr rfl rfl)
  | convergenceTests => exact rating_convergenceTests hw
  | singularScreen => exact rating_singularScreen hw
  | singularStepLength =>
    exact singularStepLength_elim (rating_done (rating_undone hw)) hw
  | requestProbe => exact rating_requestProbe hw
  | singularTest =>
    exact singularTest_elim (.inl trivial) (rating_done hw)
  | done => exact hw
  | nontrivialDecrease | goodDecrease | saveBest | keepRadius | resumeAfterConvergence | probed =>
    exact hw.elim

end Pass

namespace Search

variable {c : Config ℝ} {e s : Search ℝ p}

theorem rating_entry (he : e.Ready) : Pass.Rating c e e.verdict.entry e.pass := by
  have hplain : e.pass.Plain e := ⟨rfl, rfl, rfl⟩
  exact he.entry_elim (fun _ => hplain) (fun _ => hplain) (fun _ => hplain) fun _ => hplain

theorem assess_rating (he : e.Ready) (hrise : e.iterate.f₀ ≤ e.iterate.f)
    (hreduction : 0 ≤ c.tuner2 * e.trial.reduction) (hstays : e.Remains c) :
    (assess c e).verdict.Final ∨ e.Rated c (assess c e) ∨ (assess c e).verdict = .probe ∧
      (assess c e).record.bestLength = -(assess c e).trial.length := by
  have hentry : e.Visits c e.verdict.entry e.pass ∧ Pass.Rating c e e.verdict.entry e.pass :=
    ⟨⟨0, rfl⟩, rating_entry he⟩
  have hstep {node : Node} {w : Pass ℝ p} (hflow : Pass.Flow c e node w)
      (hw : e.Visits c node w ∧ Pass.Rating c e node w) :
      e.Visits c (w.transition c e.verdict node).1 (w.transition c e.verdict node).2 ∧
        Pass.Rating c e (w.transition c e.verdict node).1 (w.transition c e.verdict node).2 :=
    ⟨hw.1.next, Pass.rating_transition hrise hreduction hstays hw.1 hflow hw.2⟩
  obtain ⟨w, ⟨-, hw⟩, heq⟩ := he.assess_invariant_with e.comparable hentry @hstep
  rw [heq]
  exact hw

theorem Rated.probed (h : e.Assessed c s) (hv : s.verdict = .probe)
    (hlength : 0 ≤ s.trial.length) (hs : e.Rated c s ∨ s.record.bestLength = -s.trial.length)
    {t : Trial ℝ p} (hagain : (assess c { s with trial := t }).verdict = .recompute) :
    e.Rated c (assess c { s with trial := t }) := by
  rcases h with hshrunk | ⟨-, -, hfinal | hruling | hasks⟩
  · exact absurd (hshrunk.verdict.symm.trans hv) (by decide)
  · exact absurd hv hfinal.ne_probe
  · exact absurd hv hruling.ne.2
  obtain ⟨v, heq, hverdict⟩ := assess_probe c (s := { s with trial := t }) hv
  rw [heq] at hagain ⊢
  dsimp only at hagain hverdict
  have hpositive : 0 < s.record.bestLength := by
    rw [hagain] at hverdict
    rcases hverdict with hsingular | hresume
    · cases hsingular
    · split at hresume
      · cases hresume
      · next hnot => exact not_le.mp hnot
  have hnot : s.record.bestLength ≠ -s.trial.length := by linarith
  have hsame : s.record.bestLength = s.trial.length := by
    rcases hasks.length with hneg | ⟨hsame, -⟩
    · exact absurd hneg hnot
    · exact hsame
  refine (hs.resolve_right hnot).congr ?_ rfl
  dsimp only
  rw [hsame, abs_eq, abs_of_nonneg hlength]

end Search

end LeastSquares
