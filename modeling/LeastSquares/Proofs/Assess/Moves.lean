import LeastSquares.Proofs.Assess.Taken

namespace LeastSquares

namespace Verdict

/-- What a test makes of a verdict: it leaves it, or finds one that ends the fit, which is never
false convergence. -/
def Next (v u : Verdict) : Prop := u.Final ∧ u ≠ .falseConverged ∨ u = v

variable {v u t : Verdict}

theorem Next.ite {q : Prop} [Decidable q] (hu : u.Final ∧ u ≠ .falseConverged) :
    v.Next (if q then u else v) := by
  split
  · exact .inl hu
  · exact .inr rfl

theorem Next.trans (h : v.Next u) (h' : u.Next t) : v.Next t := by
  rcases h' with hfinal | rfl
  · exact .inl hfinal
  · exact h

end Verdict

/-! What holds after a move, whatever it is, by where the move may lead and with what. -/

namespace Pass

variable {α : Type} {p : Nat} {c : Config α} {entry : Verdict} {w : Pass α p}
  {inv : Node → Pass α p → Prop}

theorem beginIteration_elim
    (hover : w.search.iterate.oversized = true →
      inv .shrink (w.note { w.search.record with
        stage := -1, growth := 0, bestF := w.search.iterate.f₀, resume := entry }))
    (hfits : w.search.iterate.oversized = false →
      inv .measureStep (w.note { w.search.record with
        stage := 1, growth := 0, bestF := w.search.iterate.f₀ })) :
    inv (w.beginIteration entry).1 (w.beginIteration entry).2 := by
  unfold beginIteration
  dsimp only
  split
  · next h => exact hover h
  · next h => exact hfits (Bool.eq_false_iff.mpr h)

theorem retryDecision_elim
    (hother : w.search.iterate.model ≠ w.search.record.bestModel → inv .newModelTried w)
    (hsame : w.search.iterate.model = w.search.record.bestModel →
      inv .measureStep
        (w.note { w.search.record with stage := w.search.iterate.stageLimit, growth := -1 })) :
    inv w.retryDecision.1 w.retryDecision.2 := by
  unfold retryDecision
  split
  · next hmodel => exact hother hmodel
  · next hmodel => exact hsame (Decidable.not_not.mp hmodel)

theorem recomputedStep_elim
    (hmeasured : 0 < w.search.record.stage → inv .checkOversize w)
    (hover : w.search.iterate.oversized = true → inv .shrink w)
    (hshorter : w.search.record.resume = .otherOrShorter →
      inv .retryDecision (w.note { w.search.record with stage := -w.search.record.stage }))
    (hother : w.search.record.resume = .otherOrAccept →
      inv .newModelTried (w.note { w.search.record with stage := -w.search.record.stage }))
    (haccept : w.search.record.resume = .acceptByGradient ∨ w.search.record.resume = .accept →
      inv .measureStep (w.note { w.search.record with stage := -w.search.record.stage }))
    (hrecompute : w.search.record.resume = .recompute →
      inv .compareWithBest (w.note { w.search.record with stage := -w.search.record.stage }))
    (hbad : inv .done
      ((w.note { w.search.record with stage := -w.search.record.stage }).rule .badInput)) :
    inv w.recomputedStep.1 w.recomputedStep.2 := by
  unfold recomputedStep
  split
  · next hstage => exact hmeasured hstage
  split
  · next h => exact hover h
  dsimp only
  split
  · next hresume => exact hshorter hresume
  · next hresume => exact hother hresume
  · next hresume => exact haccept (.inl hresume)
  · next hresume => exact haccept (.inr hresume)
  · next hresume => exact hrecompute hresume
  · exact hbad

theorem checkOversize_elim
    (hfits : w.search.iterate.oversized = false → inv .compareWithBest w)
    (hgrows : w.search.iterate.oversized = true → 0 < w.search.record.growth →
      inv .restoreBest w)
    (hshrinks : w.search.iterate.oversized = true → ¬0 < w.search.record.growth →
      inv .shrink (w.note { w.search.record with
        stage := -w.search.record.stage, resume := w.search.verdict })) :
    inv w.checkOversize.1 w.checkOversize.2 := by
  unfold checkOversize
  cases hover : w.search.iterate.oversized with
  | false => exact hfits hover
  | true =>
    rw [if_neg (by decide)]
    split
    · next hgrowth => exact hgrows hover hgrowth
    · next hgrowth => exact hshrinks hover hgrowth

section

variable [Scalar α]

theorem compareWithBest_elim
    (hbetter : w.search.iterate.f < w.search.record.bestF → inv .measureStep w)
    (hother : ¬w.search.iterate.f < w.search.record.bestF →
      w.search.iterate.model ≠ w.search.record.bestModel →
      inv .restoreBest { w with search := { w.search with
        iterate := { w.search.iterate with model := w.search.record.bestModel }
        record := { w.search.record with switched := true } } })
    (hsame : ¬w.search.iterate.f < w.search.record.bestF →
      w.search.iterate.model = w.search.record.bestModel → inv .restoreBest w) :
    inv w.compareWithBest.1 w.compareWithBest.2 := by
  unfold compareWithBest
  dsimp only
  split
  · next hf => exact hbetter hf
  next hf =>
  split
  · next hmodel => exact hother hf hmodel
  · next hmodel => exact hsame hf (Decidable.not_not.mp hmodel)

theorem restoreBest_elim
    (hkeep : w.search.iterate.f₀ ≤ w.search.record.bestF → inv .measureStep w)
    (hback : ¬w.search.iterate.f₀ ≤ w.search.record.bestF → inv .measureStep { w with
      search := { w.search with
        iterate := { w.search.iterate with f := w.search.record.bestF }
        trial := { w.search.trial with
          reduction := w.search.record.bestReduction
          slope := w.search.record.bestSlope
          length := w.search.record.bestLength }
        record := { w.search.record with restored := true } }
      relief := if w.search.record.switched then w.relief
        else w.search.trial.length / w.search.record.bestLength
      current := false }) :
    inv w.restoreBest.1 w.restoreBest.2 := by
  unfold restoreBest
  dsimp only
  split
  · next hgain => exact hkeep hgain
  · next hgain => exact hback hgain

theorem measureStep_elim
    (hplain : w.search.record.restored = false → inv .classifyDecrease { w with
      change := relativeStep w.search.iterate.d w.search.iterate.x w.search.iterate.x₀ })
    (hback : w.search.record.restored = true → inv .classifyDecrease { w with
      change := relativeStep w.search.iterate.d w.search.iterate.x w.search.iterate.x₀
      search := { w.search with
        iterate := { w.search.iterate with
          x := w.search.iterate.x₀ + w.search.record.bestStep }
        trial := { w.search.trial with step := w.search.record.bestStep } } }) :
    inv w.measureStep.1 w.measureStep.2 := by
  unfold measureStep
  dsimp only
  split
  · next hrestored => exact hback hrestored
  · next hrestored => exact hplain (Bool.eq_false_iff.mpr hrestored)

theorem classifyDecrease_elim
    (hgain : c.tuner2 * w.search.trial.reduction < w.search.iterate.f₀ - w.search.iterate.f →
      inv .nontrivialDecrease (w.note { w.search.record with
        decrease := w.search.iterate.f₀ - w.search.iterate.f }))
    (htrivial : ¬c.tuner2 * w.search.trial.reduction < w.search.iterate.f₀ - w.search.iterate.f →
      inv .trivialDecrease (w.note { w.search.record with
        decrease := w.search.iterate.f₀ - w.search.iterate.f })) :
    inv (w.classifyDecrease c).1 (w.classifyDecrease c).2 := by
  unfold classifyDecrease
  dsimp only
  split
  · next hlt => exact hgain hlt
  · next hle => exact htrivial hle

theorem nontrivialDecrease_elim
    (hgood : inv .goodDecrease ({ w with relief := 1 }.note { w.search.record with
      change := if w.current then w.change else w.search.record.change
      bestLength := w.search.trial.length }))
    (hother : w.search.record.stage < w.search.iterate.stageLimit →
      inv .saveBest (({ w with relief := 1 }.note { w.search.record with
        change := if w.current then w.change else w.search.record.change
        bestLength := w.search.trial.length }).rule .otherOrAccept))
    (haccept : inv .fletcherRadius (({ w with relief := 1 }.note { w.search.record with
      change := if w.current then w.change else w.search.record.change
      bestLength := w.search.trial.length }).rule .accept)) :
    inv (w.nontrivialDecrease c).1 (w.nontrivialDecrease c).2 := by
  unfold nontrivialDecrease
  dsimp only
  generalize (if w.current = true then w.change else w.search.record.change) = change at *
  split
  · exact hgood
  split
  · next hstage => exact hother hstage
  · exact haccept

theorem falseConvergenceTest_elim
    (hnear : w.search.record.change ≤ c.falseConvergeTol →
      inv .convergenceTests (w.rule .falseConverged))
    (hgain : ¬w.search.record.change ≤ c.falseConvergeTol →
      w.search.iterate.f < w.search.iterate.f₀ → inv .saveBest (w.rule w.search.record.resume))
    (hloss : ¬w.search.record.change ≤ c.falseConvergeTol →
      ¬w.search.iterate.f < w.search.iterate.f₀ →
      inv .recordCode (w.rule w.search.record.resume)) :
    inv (w.falseConvergenceTest c).1 (w.falseConvergenceTest c).2 := by
  unfold falseConvergenceTest
  dsimp only
  split
  · next hchange => exact hnear hchange
  next hchange =>
  split
  · next hf => exact hgain hchange hf
  · next hf => exact hloss hchange hf

theorem goodDecrease_elim (hkeep : inv .keepRadius w)
    (hnewton : ∀ factor, inv .recordCode
      ((w.note { w.search.record with radiusFactor := factor }).rule .accept))
    (hlarger : ∀ factor, (factor = c.radfacMax ∨ ∃ v, factor = max c.increaseFactor v) →
      inv .saveBest ((w.note { w.search.record with
        radiusFactor := factor
        growth := w.search.record.growth + 1 }).rule .recompute)) :
    inv (w.goodDecrease c).1 (w.goodDecrease c).2 := by
  have hfactor (q : Prop) [Decidable q] (v : α) :
      (if q then max c.increaseFactor v else c.radfacMax) = c.radfacMax ∨
        ∃ v', (if q then max c.increaseFactor v else c.radfacMax) = max c.increaseFactor v' := by
    split
    · exact .inr ⟨v, rfl⟩
    · exact .inl rfl
  unfold goodDecrease
  dsimp only
  split
  · exact hkeep
  split
  · exact hkeep
  split
  · exact hnewton _
  · exact hlarger _ (hfactor _ _)

theorem smallPrediction_next (v : Verdict) : v.Next (w.smallPrediction c v) := by
  have hconverged (small relative : Bool) {v' : Verdict} (hv : v.Next v') :
      v.Next ((Verdict.converged? small relative).getD v') := by
    cases small <;> cases relative
    · exact hv
    · exact .inl ⟨trivial, Verdict.noConfusion⟩
    · exact .inl ⟨trivial, Verdict.noConfusion⟩
    · exact .inl ⟨trivial, Verdict.noConfusion⟩
  have hsingular (q : Prop) [Decidable q] : v.Next (if q then .singularConverged else v) :=
    .ite ⟨trivial, by decide⟩
  unfold smallPrediction
  dsimp only
  split
  · exact hconverged _ _ (hsingular _)
  · exact hsingular _

theorem convergenceTests_elim
    (hdone : ∀ v, w.search.verdict.Next v → inv .done (w.rule v))
    (hscreen : ∀ v threshold, w.search.verdict.Next v →
      inv .singularScreen ({ w with threshold }.rule v)) :
    inv (w.convergenceTests c).1 (w.convergenceTests c).2 := by
  have hsmall (q : Prop) [Decidable q] :
      w.search.verdict.Next (if q then .absFuncConverged else w.search.verdict) :=
    .ite ⟨trivial, by decide⟩
  unfold convergenceTests
  dsimp only
  split
  · exact hdone _ (hsmall _)
  · exact hscreen _ _ ((hsmall _).trans (smallPrediction_next _))

theorem singularScreen_elim (hdone : inv .done w)
    (hlength : ¬(5 < w.search.verdict.code ∧ w.search.verdict ≠ .falseConverged) →
      inv .singularStepLength w) :
    inv (w.singularScreen c).1 (w.singularScreen c).2 := by
  unfold singularScreen
  dsimp only
  split
  · exact hdone
  next hcode =>
  split
  · exact hlength hcode
  split
  · exact hdone
  split
  · exact hlength hcode
  split
  · exact hdone
  · exact hlength hcode

theorem singularStepLength_elim (hdone : inv .done w) (hprobe : inv .requestProbe w) :
    inv (w.singularStepLength c).1 (w.singularStepLength c).2 := by
  unfold singularStepLength
  dsimp only
  split
  · exact hprobe
  split
  · exact hdone
  · exact hprobe

theorem requestProbe_elim (hknown : inv .singularTest w)
    (hasks : inv .done ((w.note { w.search.record with
      bestSlope := w.search.trial.slope
      bestLength :=
        if w.search.verdict = .falseConverged then -w.search.trial.length else w.search.trial.length
      bestReduction := w.search.trial.reduction
      bestStep := w.search.trial.step }).rule .probe)) :
    inv w.requestProbe.1 w.requestProbe.2 := by
  unfold requestProbe
  dsimp only
  split
  · exact hknown
  · exact hasks

theorem singularTest_elim (hsingular : inv .done (w.rule .singularConverged))
    (hdone : inv .done w) : inv (w.singularTest c).1 (w.singularTest c).2 := by
  unfold singularTest
  split
  · exact hsingular
  · exact hdone

end

end Pass

theorem Search.Ready.entry_elim {α : Type} {p : Nat} [Scalar α] {e : Search α p}
    {inv : Node → Pass α p → Prop} (he : e.Ready)
    (hfirst : e.verdict = .acceptByGradient ∨ e.verdict = .accept → inv .beginIteration e.pass)
    (hshorter : e.verdict = .otherOrShorter → inv .retryDecision e.pass)
    (hother : e.verdict = .otherOrAccept → inv .newModelTried e.pass)
    (hagain : e.verdict = .recompute → inv .recomputedStep e.pass) :
    inv e.verdict.entry e.pass := by
  have hready := he.2
  cases hv : e.verdict <;> rw [hv] at hready
  case acceptByGradient => exact hfirst (.inl hv)
  case accept => exact hfirst (.inr hv)
  case otherOrShorter => exact hshorter hv
  case otherOrAccept => exact hother hv
  case recompute => exact hagain hv
  all_goals exact hready.elim

end LeastSquares
