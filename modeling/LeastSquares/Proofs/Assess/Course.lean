import LeastSquares.Proofs.Assess.Depth
import LeastSquares.Proofs.Assess.Relief

/-! What an assessment comes to, move after move, for the kinds of trials that can be told apart
by their gain. -/

namespace LeastSquares

variable {p : Nat} {c : Config ℝ} {e : Search ℝ p} {w : Pass ℝ p}

namespace Search.Visits

theorem entry (c : Config ℝ) (e : Search ℝ p) : e.Visits c e.verdict.entry e.pass := ⟨0, rfl⟩

theorem move {node node' : Node} {w' : Pass ℝ p} (h : e.Visits c node w)
    (hmove : w.transition c e.verdict node = (node', w')) : e.Visits c node' w' := by
  have hnext := h.next
  rw [hmove] at hnext
  exact hnext

theorem assess_eq (h : e.Visits c .done w) (he : e.pass.Countable e.verdict.entry) :
    assess c e = w.search := by
  obtain ⟨k, hk⟩ := h
  have hstays (j : Nat) (w : Pass ℝ p) : Pass.run c e.verdict j .done w = (.done, w) := by
    cases j <;> rfl
  have hdone := e.pass.run_of_left_le c e.verdict Node.longest e.verdict.entry
    (Node.rank_le_longest _ _) he
  have hlong : Pass.run c e.verdict (Node.longest + k) e.verdict.entry e.pass =
      Pass.run c e.verdict Node.longest e.verdict.entry e.pass := by
    rw [Pass.run_add, hdone, hstays]
    exact Prod.ext hdone.symm rfl
  rw [Nat.add_comm, Pass.run_add, hk, hstays] at hlong
  exact congrArg (·.2.search) hlong.symm

theorem gain (h : e.Visits c .classifyDecrease w)
    (hgain : c.tuner2 * w.search.trial.reduction < w.search.iterate.f₀ - w.search.iterate.f) :
    e.Visits c .nontrivialDecrease
      (w.note { w.search.record with decrease := w.search.iterate.f₀ - w.search.iterate.f }) :=
  h.move (Prod.ext (if_pos hgain) rfl)

theorem noGain (h : e.Visits c .classifyDecrease w)
    (htrivial : ¬c.tuner2 * w.search.trial.reduction <
      w.search.iterate.f₀ - w.search.iterate.f) :
    e.Visits c .trivialDecrease
      (w.note { w.search.record with decrease := w.search.iterate.f₀ - w.search.iterate.f }) :=
  h.move (Prod.ext (if_neg htrivial) rfl)

section

variable (h : e.Visits c .nontrivialDecrease w)
include h

theorem good (hgood : w.search.trial.reduction * c.tuner1 < w.search.record.decrease) :
    e.Visits c .goodDecrease ({ w with relief := 1 }.note { w.search.record with
      change := if w.current then w.change else w.search.record.change
      bestLength := w.search.trial.length }) :=
  h.move (if_pos hgood)

theorem weak (hweak : ¬w.search.trial.reduction * c.tuner1 < w.search.record.decrease)
    (hstage : w.search.record.stage < w.search.iterate.stageLimit) :
    e.Visits c .saveBest (({ w with relief := 1 }.note { w.search.record with
      change := if w.current then w.change else w.search.record.change
      bestLength := w.search.trial.length }).rule .otherOrAccept) :=
  h.move ((if_neg hweak).trans (if_pos hstage))

theorem weakLast (hweak : ¬w.search.trial.reduction * c.tuner1 < w.search.record.decrease)
    (hstage : ¬w.search.record.stage < w.search.iterate.stageLimit) :
    e.Visits c .fletcherRadius (({ w with relief := 1 }.note { w.search.record with
      change := if w.current then w.change else w.search.record.change
      bestLength := w.search.trial.length }).rule .accept) :=
  h.move ((if_neg hweak).trans (if_neg hstage))

end

section

variable (h : e.Visits c .goodDecrease w)
include h

theorem keep (hkeep : w.search.record.decrease < -c.tuner3 * w.search.trial.slope) :
    e.Visits c .recordCode
      ((w.note { w.search.record with radiusFactor := 1 }).rule .acceptByGradient) := by
  have hkept : e.Visits c .keepRadius w := h.move (if_pos hkeep)
  exact hkept.move rfl

variable (hmore : ¬w.search.record.decrease < -c.tuner3 * w.search.trial.slope)
  (hopen : ¬(w.search.record.growth < 0 ∨ w.search.record.restored = true))
include hmore hopen

theorem whole (hparameter : w.search.trial.parameter = 0) : ∃ radiusFactor,
    e.Visits c .recordCode ((w.note { w.search.record with radiusFactor }).rule .accept) :=
  ⟨_, h.move ((if_neg hmore).trans ((if_neg hopen).trans
    (if_pos (beq_iff.mpr hparameter))))⟩

theorem cut (hparameter : w.search.trial.parameter ≠ 0) : ∃ radiusFactor,
    e.Visits c .saveBest ((w.note { w.search.record with
      radiusFactor
      growth := w.search.record.growth + 1 }).rule .recompute) :=
  ⟨_, h.move ((if_neg hmore).trans ((if_neg hopen).trans
    (if_neg (beq_iff.not.mpr hparameter))))⟩

end

section

variable (h : e.Visits c .trivialDecrease w)
include h

theorem slightOther (hf : ¬w.search.iterate.f₀ ≤ w.search.iterate.f)
    (hstage : ¬w.search.iterate.stageLimit ≤ w.search.record.stage) :
    e.Visits c .fletcherRadius
      ((w.note { w.search.record with change := w.change }).rule .otherOrShorter) := by
  refine h.move (Prod.ext rfl ?_)
  simp only [Pass.transition, Pass.trivialDecrease, if_neg hf, if_neg hstage]
  rfl

theorem slightLast (hf : ¬w.search.iterate.f₀ ≤ w.search.iterate.f)
    (hstage : w.search.iterate.stageLimit ≤ w.search.record.stage) :
    e.Visits c .fletcherRadius ((w.note { w.search.record with
      change := w.change
      growth := w.search.record.growth - 1 }).rule .recompute) := by
  refine h.move (Prod.ext rfl ?_)
  simp only [Pass.transition, Pass.trivialDecrease, if_neg hf, if_pos hstage]
  rfl

theorem lost (hf : w.search.iterate.f₀ ≤ w.search.iterate.f)
    (hstage : w.search.iterate.stageLimit ≤ w.search.record.stage) :
    e.Visits c .fletcherRadius { w with search := { w.search with
      verdict := .recompute
      iterate := { w.search.iterate with f := w.search.iterate.f₀, x := w.search.iterate.x₀ }
      record := { w.search.record with
        change := w.change
        bestModel := w.search.iterate.model
        bestF := w.search.iterate.f
        restored := true
        growth := w.search.record.growth - 1 } } } := by
  refine h.move (Prod.ext rfl ?_)
  simp only [Pass.transition, Pass.trivialDecrease, if_pos hf, if_pos hstage]

end

section

variable (h : e.Visits c .fletcherRadius w)
include h

theorem factored : e.Visits c .falseConvergenceTest (w.note { w.search.record with
    resume := w.search.verdict
    radiusFactor :=
      if w.search.trial.slope + w.search.record.decrease < w.search.trial.slope then
        w.relief * max c.radfacMin
          (1 / 2 * w.search.trial.slope / (w.search.trial.slope + w.search.record.decrease))
      else 1 / 2 * w.relief }) :=
  h.move rfl

theorem halved (hgain : 0 ≤ w.search.record.decrease) :
    e.Visits c .falseConvergenceTest (w.note { w.search.record with
      resume := w.search.verdict
      radiusFactor := 1 / 2 * w.relief }) := by
  have hless : ¬w.search.trial.slope + w.search.record.decrease < w.search.trial.slope := by
    linarith
  have hfactored := h.factored
  rwa [if_neg hless] at hfactored

end

section

variable (h : e.Visits c .compareWithBest w)
  (hworse : ¬w.search.iterate.f < w.search.record.bestF)
  (hgain : ¬w.search.iterate.f₀ ≤ w.search.record.bestF)
include h hworse

theorem visits_restoreBest (hmodel : ¬w.search.iterate.model ≠ w.search.record.bestModel) :
    e.Visits c .restoreBest w :=
  h.move ((if_neg hworse).trans (if_neg hmodel))

include hgain

theorem exchanged (hmodel : w.search.iterate.model ≠ w.search.record.bestModel) :
    e.Visits c .classifyDecrease { w with
      search := { w.search with
        iterate := { w.search.iterate with
          model := w.search.record.bestModel
          f := w.search.record.bestF
          x := w.search.iterate.x₀ + w.search.record.bestStep }
        trial := w.search.recalled
        record := { w.search.record with
          switched := true
          restored := true } }
      current := false
      change := relativeStep w.search.iterate.d w.search.iterate.x w.search.iterate.x₀ } := by
  have hrestore : e.Visits c .restoreBest _ := h.move ((if_neg hworse).trans (if_pos hmodel))
  have hmeasure : e.Visits c .measureStep _ := hrestore.move (if_neg hgain)
  exact hmeasure.move rfl

end

section

variable (h : e.Visits c .falseConvergenceTest w)
include h

theorem near (hchange : w.search.record.change ≤ c.falseConvergeTol) :
    e.Visits c .convergenceTests (w.rule .falseConverged) :=
  h.move (if_pos hchange)

theorem farGain (hchange : ¬w.search.record.change ≤ c.falseConvergeTol)
    (hf : w.search.iterate.f < w.search.iterate.f₀) :
    e.Visits c .saveBest (w.rule w.search.record.resume) :=
  h.move ((if_neg hchange).trans (Prod.ext (if_pos hf) rfl))

theorem farLoss (hchange : ¬w.search.record.change ≤ c.falseConvergeTol)
    (hf : ¬w.search.iterate.f < w.search.iterate.f₀) :
    e.Visits c .recordCode (w.rule w.search.record.resume) :=
  h.move ((if_neg hchange).trans (Prod.ext (if_neg hf) rfl))

end

theorem saved (h : e.Visits c .saveBest w) :
    e.Visits c .convergenceTests (w.note { w.search.record with
      bestF := w.search.iterate.f
      bestModel := w.search.iterate.model
      bestStep := w.search.trial.step
      bestLength := w.search.trial.length
      bestReduction := w.search.trial.reduction
      bestSlope := w.search.trial.slope
      resume := w.search.verdict }) := by
  have hrecord : e.Visits c .recordCode _ := h.move rfl
  exact hrecord.move rfl

theorem recorded (h : e.Visits c .recordCode w) :
    e.Visits c .convergenceTests (w.note { w.search.record with resume := w.search.verdict }) :=
  h.move rfl

end Search.Visits

/-- No test of convergence has anything to say of this trial, from the objective `f₀` to `f`. -/
structure Config.Silent (c : Config ℝ) (f₀ f : ℝ) (t : Trial ℝ p) (change : ℝ) : Prop where
  value : ¬|f| < c.absFuncTol
  length : t.length ≤ c.initialTrustRadius
  reduction : c.singularTol * |f₀| ≤ t.reduction
  relative : ¬(0 < t.newtonReduction ∧ t.newtonReduction ≤ c.relFuncTol * |f₀|)
  change : ¬change ≤ c.xConvergeTol

theorem Pass.smallPrediction_silent
    (hw : c.Silent w.search.iterate.f₀ w.search.iterate.f w.search.trial
      w.search.record.change) (v : Verdict) :
    w.smallPrediction c v = v := by
  have hsingular : ¬(c.initialTrustRadius < w.search.trial.length ∧
      w.search.trial.reduction ≤ c.singularTol * Scalar.abs w.search.iterate.f₀) :=
    fun h => not_lt.mpr hw.length h.1
  unfold smallPrediction
  dsimp only
  rw [if_neg hsingular, abs_eq, decide_eq_false hw.change, decide_eq_false hw.relative,
    Bool.and_false]
  split <;> rfl

theorem Search.Visits.silent (h : e.Visits c .convergenceTests w)
    (hw : c.Silent w.search.iterate.f₀ w.search.iterate.f w.search.trial
      w.search.record.change)
    (hv : w.search.verdict.code ≤ 5 ∨ w.search.verdict = .falseConverged)
    (he : e.pass.Countable e.verdict.entry) : assess c e = w.search := by
  have hkept : (if Scalar.abs w.search.iterate.f < c.absFuncTol then .absFuncConverged
      else w.search.verdict) = w.search.verdict := if_neg hw.value
  have htests : w.convergenceTests c = if w.search.trial.reduction <
      1 / 2 * w.search.record.decrease then (.done, w.rule w.search.verdict)
      else (.singularScreen, { w with
        threshold := c.singularTol * Scalar.abs w.search.iterate.f₀ }.rule w.search.verdict) := by
    unfold Pass.convergenceTests
    dsimp only
    rw [hkept, Pass.smallPrediction_silent hw]
  by_cases hgate : w.search.trial.reduction < 1 / 2 * w.search.record.decrease
  · exact (h.move (htests.trans (if_pos hgate))).assess_eq he
  · have hscreen := h.move (htests.trans (if_neg hgate))
    have hopen : ¬(5 < w.search.verdict.code ∧ w.search.verdict ≠ .falseConverged) := by
      rintro ⟨hcode, hne⟩
      rcases hv with hv | hv
      · omega
      · exact hne hv
    exact (hscreen.move ((if_neg hopen).trans ((if_neg (not_lt.mpr hw.length)).trans
      (if_pos hw.reduction)))).assess_eq he

theorem Search.Visits.unforeseen (h : e.Visits c .convergenceTests w)
    (hvalue : ¬|w.search.iterate.f| < c.absFuncTol)
    (hgain : w.search.trial.reduction < 1 / 2 * w.search.record.decrease)
    (he : e.pass.Countable e.verdict.entry) : assess c e = w.search := by
  have hkept : (if Scalar.abs w.search.iterate.f < c.absFuncTol then .absFuncConverged
      else w.search.verdict) = w.search.verdict := if_neg hvalue
  have htests : w.convergenceTests c = (.done, w.rule w.search.verdict) := by
    unfold Pass.convergenceTests
    dsimp only
    rw [hkept, if_pos hgain]
  exact (h.move htests).assess_eq he

namespace Search

noncomputable def opened (e : Search ℝ p) : Pass ℝ p where
  search := { e with record := { e.record with
    switched := false
    restored := false
    stage := 1
    growth := 0
    bestF := e.iterate.f₀ } }
  relief := 1
  current := true
  change := relativeStep e.iterate.d e.iterate.x e.iterate.x₀
  threshold := 0

section First

variable (hv : e.Begins) (hfits : e.iterate.oversized = false)
include hv

theorem Begins.countable : e.pass.Countable e.verdict.entry := by
  rw [show e.verdict.entry = .beginIteration from hv]
  trivial

include hfits

theorem Begins.visits_opened (c : Config ℝ) : e.Visits c .classifyDecrease e.opened := by
  have hbegin : e.Visits c .beginIteration e.pass := by
    have hentry := Visits.entry c e
    rwa [show e.verdict.entry = .beginIteration from hv] at hentry
  have hmeasure : e.Visits c .measureStep _ := hbegin.move (if_neg (Bool.eq_false_iff.mp hfits))
  exact hmeasure.move rfl

theorem Begins.assess_kept
    (hgain : c.tuner2 * e.trial.reduction < e.iterate.f₀ - e.iterate.f)
    (hgood : e.trial.reduction * c.tuner1 < e.iterate.f₀ - e.iterate.f)
    (hkeep : e.iterate.f₀ - e.iterate.f < -c.tuner3 * e.trial.slope)
    (hsilent : c.Silent e.iterate.f₀ e.iterate.f e.trial
      (relativeStep e.iterate.d e.iterate.x e.iterate.x₀)) :
    assess c e = { e with
      verdict := .acceptByGradient
      record := { e.record with
        switched := false
        restored := false
        stage := 1
        growth := 0
        bestF := e.iterate.f₀
        decrease := e.iterate.f₀ - e.iterate.f
        change := relativeStep e.iterate.d e.iterate.x e.iterate.x₀
        bestLength := e.trial.length
        radiusFactor := 1
        resume := .acceptByGradient } } := by
  have hkept := (((hv.visits_opened hfits c).gain hgain).good hgood).keep hkeep
  have hcode : Verdict.acceptByGradient.code ≤ 5 := by decide
  exact hkept.recorded.silent hsilent (.inl hcode) hv.countable

section Unforeseen

variable (hgain : c.tuner2 * e.trial.reduction < e.iterate.f₀ - e.iterate.f)
  (hgood : e.trial.reduction * c.tuner1 < e.iterate.f₀ - e.iterate.f)
  (hmore : ¬e.iterate.f₀ - e.iterate.f < -c.tuner3 * e.trial.slope)
  (hvalue : ¬|e.iterate.f| < c.absFuncTol)
  (hfar : e.trial.reduction < 1 / 2 * (e.iterate.f₀ - e.iterate.f))
include hgain hgood hmore hvalue hfar

theorem Begins.assess_whole (hparameter : e.trial.parameter = 0) : ∃ record, assess c e = { e with
    verdict := .accept
    record } := by
  have hopen : ¬((0 : Int32) < 0 ∨ false = true) := by decide
  obtain ⟨factor, hwhole⟩ := (((hv.visits_opened hfits c).gain hgain).good hgood).whole hmore
    hopen hparameter
  exact ⟨_, hwhole.recorded.unforeseen hvalue hfar hv.countable⟩

theorem Begins.assess_cut (hparameter : e.trial.parameter ≠ 0) : ∃ radiusFactor,
    assess c e = { e with
      verdict := .recompute
      record := {
        stage := 1
        growth := 1
        restored := false
        switched := false
        resume := .recompute
        bestModel := e.iterate.model
        bestF := e.iterate.f
        bestReduction := e.trial.reduction
        bestSlope := e.trial.slope
        bestLength := e.trial.length
        bestStep := e.trial.step
        change := relativeStep e.iterate.d e.iterate.x e.iterate.x₀
        decrease := e.iterate.f₀ - e.iterate.f
        radiusFactor } } := by
  have hopen : ¬((0 : Int32) < 0 ∨ false = true) := by decide
  obtain ⟨factor, hcut⟩ := (((hv.visits_opened hfits c).gain hgain).good hgood).cut hmore
    hopen hparameter
  exact ⟨_, hcut.saved.unforeseen hvalue hfar hv.countable⟩

end Unforeseen

theorem Begins.assess_weak
    (hgain : c.tuner2 * e.trial.reduction < e.iterate.f₀ - e.iterate.f)
    (hweak : ¬e.trial.reduction * c.tuner1 < e.iterate.f₀ - e.iterate.f)
    (hstage : (1 : Int32) < e.iterate.stageLimit)
    (hsilent : c.Silent e.iterate.f₀ e.iterate.f e.trial
      (relativeStep e.iterate.d e.iterate.x e.iterate.x₀)) :
    assess c e = { e with
      verdict := .otherOrAccept
      record := {
        stage := 1
        growth := 0
        restored := false
        switched := false
        resume := .otherOrAccept
        bestModel := e.iterate.model
        bestF := e.iterate.f
        bestReduction := e.trial.reduction
        bestSlope := e.trial.slope
        bestLength := e.trial.length
        bestStep := e.trial.step
        change := relativeStep e.iterate.d e.iterate.x e.iterate.x₀
        decrease := e.iterate.f₀ - e.iterate.f
        radiusFactor := e.record.radiusFactor } } := by
  have hsaved := (((hv.visits_opened hfits c).gain hgain).weak hweak hstage).saved
  have hcode : Verdict.otherOrAccept.code ≤ 5 := by decide
  exact hsaved.silent hsilent (.inl hcode) hv.countable

theorem Begins.assess_lost (hworse : e.iterate.f₀ ≤ e.iterate.f)
    (hreduction : 0 ≤ c.tuner2 * e.trial.reduction)
    (hstage : e.iterate.stageLimit ≤ (1 : Int32))
    (hfar : ¬relativeStep e.iterate.d e.iterate.x e.iterate.x₀ ≤ c.falseConvergeTol)
    (hsilent : c.Silent e.iterate.f₀ e.iterate.f₀ e.trial
      (relativeStep e.iterate.d e.iterate.x e.iterate.x₀)) :
    ∃ record, assess c e = { e with
        verdict := .recompute
        iterate := { e.iterate with f := e.iterate.f₀, x := e.iterate.x₀ }
        record } := by
  have hnone : ¬c.tuner2 * e.trial.reduction < e.iterate.f₀ - e.iterate.f := by linarith
  have hlost := ((((hv.visits_opened hfits c).noGain hnone).lost hworse hstage).factored).farLoss
    hfar (lt_irrefl _)
  have hcode : Verdict.recompute.code ≤ 5 := by decide
  exact ⟨_, hlost.recorded.silent hsilent (.inl hcode) hv.countable⟩

theorem Begins.assess_slightOther (hbetter : e.iterate.f < e.iterate.f₀)
    (hslight : ¬c.tuner2 * e.trial.reduction < e.iterate.f₀ - e.iterate.f)
    (hstage : ¬e.iterate.stageLimit ≤ (1 : Int32))
    (hfar : ¬relativeStep e.iterate.d e.iterate.x e.iterate.x₀ ≤ c.falseConvergeTol)
    (hsilent : c.Silent e.iterate.f₀ e.iterate.f e.trial
      (relativeStep e.iterate.d e.iterate.x e.iterate.x₀)) :
    assess c e = { e with
      verdict := .otherOrShorter
      record := {
        stage := 1
        growth := 0
        restored := false
        switched := false
        resume := .otherOrShorter
        bestModel := e.iterate.model
        bestF := e.iterate.f
        bestReduction := e.trial.reduction
        bestSlope := e.trial.slope
        bestLength := e.trial.length
        bestStep := e.trial.step
        change := relativeStep e.iterate.d e.iterate.x e.iterate.x₀
        decrease := e.iterate.f₀ - e.iterate.f
        radiusFactor := 1 / 2 * 1 } } := by
  have hslight := ((hv.visits_opened hfits c).noGain hslight).slightOther (not_le.mpr hbetter)
    hstage
  have hsaved := ((hslight.halved (sub_pos.mpr hbetter).le).farGain hfar hbetter).saved
  have hcode : Verdict.otherOrShorter.code ≤ 5 := by decide
  exact hsaved.silent hsilent (.inl hcode) hv.countable

/-- A first trial that is a slight gain is kept, and where no other model may be tried its step
is computed again for half the radius. -/
theorem Begins.assess_slight (hbetter : e.iterate.f < e.iterate.f₀)
    (hslight : ¬c.tuner2 * e.trial.reduction < e.iterate.f₀ - e.iterate.f)
    (hstage : e.iterate.stageLimit ≤ (1 : Int32))
    (hfar : ¬relativeStep e.iterate.d e.iterate.x e.iterate.x₀ ≤ c.falseConvergeTol)
    (hsilent : c.Silent e.iterate.f₀ e.iterate.f e.trial
      (relativeStep e.iterate.d e.iterate.x e.iterate.x₀)) :
    assess c e = { e with
      verdict := .recompute
      record := {
        stage := 1
        growth := -1
        restored := false
        switched := false
        resume := .recompute
        bestModel := e.iterate.model
        bestF := e.iterate.f
        bestReduction := e.trial.reduction
        bestSlope := e.trial.slope
        bestLength := e.trial.length
        bestStep := e.trial.step
        change := relativeStep e.iterate.d e.iterate.x e.iterate.x₀
        decrease := e.iterate.f₀ - e.iterate.f
        radiusFactor := 1 / 2 * 1 } } := by
  have hslight := ((hv.visits_opened hfits c).noGain hslight).slightLast (not_le.mpr hbetter)
    hstage
  have hsaved := ((hslight.halved (sub_pos.mpr hbetter).le).farGain hfar hbetter).saved
  have hcode : Verdict.recompute.code ≤ 5 := by decide
  exact hsaved.silent hsilent (.inl hcode) hv.countable

end First

theorem visits_compareWithBest (c : Config ℝ) (hfits : e.iterate.oversized = false)
    (hv : e.verdict = .recompute) (hstage : 0 < e.record.stage) :
    e.Visits c .compareWithBest e.pass := by
  have hentry : e.Visits c .recomputedStep e.pass := by
    have hentry := Visits.entry c e
    rwa [hv] at hentry
  have hcheck : e.Visits c .checkOversize e.pass := hentry.move (if_pos hstage)
  exact hcheck.move (if_pos (congrArg Bool.not hfits))

section Later

variable (hv : e.verdict = .otherOrShorter ∨ e.verdict = .otherOrAccept)
  (hstage : e.record.stage = 1)
include hv hstage

theorem countable_of_other : e.pass.Countable e.verdict.entry := by
  have hbounds : -2147483648 < e.record.stage.toInt ∧ e.record.stage.toInt < 2147483647 := by
    rw [hstage]
    decide
  rcases hv with hv | hv <;> rw [hv] <;> exact hbounds

variable (hfits : e.iterate.oversized = false) (hmodel : e.iterate.model ≠ e.record.bestModel)
include hfits hmodel

theorem visits_of_other (c : Config ℝ) : e.Visits c .compareWithBest
    (e.pass.note { e.pass.search.record with stage := e.record.stage + 1 }) := by
  have hpos : 0 < e.record.stage + 1 := by rw [hstage]; decide
  have hnew : e.Visits c .newModelTried e.pass := by
    have hentry := Visits.entry c e
    rcases hv with hv | hv
    · have hretry : e.Visits c .retryDecision e.pass := by rwa [hv] at hentry
      exact hretry.move (if_pos hmodel)
    · rwa [hv] at hentry
  have hstep : e.Visits c .recomputedStep _ := hnew.move rfl
  have hcheck : e.Visits c .checkOversize _ := hstep.move (if_pos hpos)
  exact hcheck.move (if_pos (congrArg Bool.not hfits))

variable (hworse : ¬e.iterate.f < e.record.bestF) (hbetter : e.record.bestF < e.iterate.f₀)
include hworse hbetter

theorem assess_back (hlimit : e.iterate.stageLimit = 2)
    (hgain : c.tuner2 * e.record.bestReduction < e.iterate.f₀ - e.record.bestF)
    (hweak : ¬e.record.bestReduction * c.tuner1 < e.iterate.f₀ - e.record.bestF)
    (hfar : ¬e.record.change ≤ c.falseConvergeTol)
    (hsilent : c.Silent e.iterate.f₀ e.record.bestF e.recalled e.record.change) :
    ∃ record, assess c e = { e with
      verdict := .accept
      iterate := { e.iterate with
        model := e.record.bestModel
        f := e.record.bestF
        x := e.iterate.x₀ + e.record.bestStep }
      trial := e.recalled
      record } := by
  have hlast : ¬e.record.stage + 1 < e.iterate.stageLimit := by
    rw [hstage, hlimit]
    decide
  have hback := (visits_of_other hv hstage hfits hmodel c).exchanged hworse (not_le.mpr hbetter)
    hmodel
  have haccept := (hback.gain hgain).weakLast hweak hlast
  have hsaved := ((haccept.halved (sub_pos.mpr hbetter).le).farGain hfar hbetter).saved
  have hcode : Verdict.accept.code ≤ 5 := by decide
  exact ⟨_, hsaved.silent hsilent (.inl hcode) (countable_of_other hv hstage)⟩

/-- Where the trial of the other model is worse than a slight gain of the first one, and next to
nothing, that gain is put back, and is all there is. -/
theorem assess_backNear (hlimit : e.iterate.stageLimit = 2)
    (hslight : ¬c.tuner2 * e.record.bestReduction < e.iterate.f₀ - e.record.bestF)
    (hnear : relativeStep e.iterate.d e.iterate.x e.iterate.x₀ ≤ c.falseConvergeTol)
    (hsilent : c.Silent e.iterate.f₀ e.record.bestF e.recalled
      (relativeStep e.iterate.d e.iterate.x e.iterate.x₀)) :
    ∃ record, assess c e = { e with
      verdict := .falseConverged
      iterate := { e.iterate with
        model := e.record.bestModel
        f := e.record.bestF
        x := e.iterate.x₀ + e.record.bestStep }
      trial := e.recalled
      record } := by
  have hlast : e.iterate.stageLimit ≤ e.record.stage + 1 := by
    rw [hstage, hlimit]
    decide
  have hback := (visits_of_other hv hstage hfits hmodel c).exchanged hworse (not_le.mpr hbetter)
    hmodel
  have hrecompute := (hback.noGain hslight).slightLast (not_le.mpr hbetter) hlast
  have hfalse := (hrecompute.halved (sub_pos.mpr hbetter).le).near hnear
  exact ⟨_, hfalse.silent hsilent (.inr rfl) (countable_of_other hv hstage)⟩

end Later

end Search

end LeastSquares
