import LeastSquares.Proofs.Assess.Steady

namespace LeastSquares

variable {p : Nat}

/-- The factors on the radius, and the tolerance that stops steps of length zero. -/
structure Config.Paced (c : Config ℝ) : Prop where
  falseConvergeTol : 0 ≤ c.falseConvergeTol
  tuner2 : 0 ≤ c.tuner2
  decrease : 0 < c.decreaseFactor
  increase : 0 < c.increaseFactor
  radfacMin : 0 < c.radfacMin
  radfacMax : 0 < c.radfacMax

theorem fin_foldl_fixed {β : Type} {f : β → Fin p → β} {b : β} (h : ∀ i, f b i = b) :
    Fin.foldl p f b = b := by
  induction p with
  | zero => rw [Fin.foldl_zero]
  | succ p ih => rw [Fin.foldl_succ, h, ih fun i => h i.succ]

theorem relativeStep_eq_zero {d x x₀ : Vector ℝ p}
    (h : ∀ i : Fin p, d[i] * (x[i] - x₀[i]) = 0) : relativeStep d x x₀ = 0 := by
  have hchange (i : Fin p) : max 0 (Scalar.abs (d[i] * (x[i] - x₀[i]))) = (0 : ℝ) := by
    rw [h, abs_eq, abs_zero, max_self]
  have hfold : Fin.foldl p (fun m (i : Fin p) => max m (Scalar.abs (d[i] * (x[i] - x₀[i])))) 0 =
      (0 : ℝ) := fin_foldl_fixed hchange
  unfold relativeStep
  dsimp only
  rw [hfold, zero_div, ite_self]

theorem relativeStep_self (d x : Vector ℝ p) : relativeStep d x x = 0 :=
  relativeStep_eq_zero fun i => by rw [sub_self, mul_zero]

def Record.Guides (r : Record ℝ p) (v : Verdict) : Prop := v = .recompute → 0 < r.radiusFactor

/-- Steps of length zero lead nowhere, and their models foretell nothing. -/
structure Search.Paced (e : Search ℝ p) : Prop where
  length : 0 ≤ e.trial.length
  stays : e.trial.length = 0 → e.iterate.x = e.iterate.x₀
  idle : e.trial.length = 0 → e.trial.reduction ≤ 0
  best : ¬(e.verdict = .acceptByGradient ∨ e.verdict = .accept) →
    e.record.bestF < e.iterate.f₀ → 0 < e.record.bestLength ∨ e.record.bestReduction ≤ 0

namespace Pass

variable (w : Pass ℝ p)

def Fair : Prop :=
  w.relief = 1 ∧ 0 ≤ w.search.trial.length ∧
    (w.search.trial.length = 0 → w.search.iterate.x = w.search.iterate.x₀)

def Exceeds : Prop :=
  w.search.trial.reduction ≤ 0 ∧ w.search.iterate.f < w.search.iterate.f₀

/-- What keeps the radius positive before each node: a factor of zero comes with a step that
changes nothing. -/
def Pace : Node → Pass ℝ p → Prop
  | .beginIteration, w => w.Fair
  | .retryDecision, w | .newModelTried, w | .recomputedStep, w | .checkOversize, w
  | .compareWithBest, w | .restoreBest, w => w.Fair ∧
      (w.search.record.bestF < w.search.iterate.f₀ →
        0 < w.search.record.bestLength ∨ w.search.record.bestReduction ≤ 0)
  | .measureStep, w => 0 < w.relief ∨ w.search.iterate.x = w.search.iterate.x₀ ∨ w.Exceeds
  | .classifyDecrease, w => 0 < w.relief ∨ w.change = 0 ∨ w.Exceeds
  | .trivialDecrease, w => 0 < w.relief ∨ w.change = 0
  | .fletcherRadius, w => 0 < w.relief ∨ w.search.record.change = 0
  | .falseConvergenceTest, w =>
    0 < w.search.record.radiusFactor ∨ w.search.record.change = 0
  | .saveBest, w | .recordCode, w => w.search.record.Guides w.search.verdict
  | .convergenceTests, w | .singularScreen, w => w.search.verdict.Final ∨
      w.search.record.Guides w.search.verdict ∧ w.search.record.Guides w.search.record.resume
  | .singularStepLength, w | .requestProbe, w | .singularTest, w =>
    w.search.verdict = .falseConverged ∨
      w.search.record.Guides w.search.verdict ∧ w.search.record.Guides w.search.record.resume
  | .done, w => w.search.record.Guides w.search.verdict ∧ (w.search.verdict = .probe →
      w.search.record.bestLength = -w.search.trial.length ∨
        w.search.record.Guides w.search.record.resume)
  | .nontrivialDecrease, _ | .goodDecrease, _ | .keepRadius, _ | .shrink, _ => True
  | .resumeAfterConvergence, _ | .probed, _ => False

variable {w} {c : Config ℝ}

theorem pace_recomputedStep (hw : Pace .recomputedStep w) :
    Pace w.recomputedStep.1 w.recomputedStep.2 := by
  have hrelief : 0 < w.relief := by
    rw [hw.1.1]
    exact one_pos
  refine recomputedStep_elim (fun _ => hw) (fun _ => trivial) (fun _ => hw) (fun _ => hw)
    (fun _ => .inl hrelief) (fun _ => hw) ?_
  exact ⟨fun h => (by cases h), fun h => (by cases h)⟩

theorem pace_shrink (hc : c.Paced) : Pace (w.shrink c).1 (w.shrink c).2 :=
  ⟨fun _ => hc.decrease, fun h => by cases h⟩

theorem pace_restoreBest (hw : Pace .restoreBest w) :
    Pace w.restoreBest.1 w.restoreBest.2 := by
  obtain ⟨⟨hrelief, hlength, hstays⟩, hbest⟩ := hw
  have hone : 0 < w.relief := by
    rw [hrelief]
    exact one_pos
  refine restoreBest_elim (fun _ => .inl hone) fun hgain => ?_
  rcases hlength.lt_or_eq with hpos | hzero
  · rcases hbest (not_le.mp hgain) with hbest | hidle
    · refine .inl ?_
      dsimp only
      split
      · exact hone
      · exact div_pos hpos hbest
    · exact .inr (.inr ⟨hidle, not_le.mp hgain⟩)
  · exact .inr (.inl (hstays hzero.symm))

theorem pace_measureStep (hw : Pace .measureStep w) :
    Pace w.measureStep.1 w.measureStep.2 := by
  have hchange : 0 < w.relief ∨
      relativeStep w.search.iterate.d w.search.iterate.x w.search.iterate.x₀ = 0 ∨
      w.Exceeds := by
    refine hw.imp_right (Or.imp_left fun hstays => ?_)
    rw [hstays]
    exact relativeStep_self _ _
  exact measureStep_elim (fun _ => hchange) fun _ => hchange

theorem pace_classifyDecrease (hc : c.Paced) (hw : Pace .classifyDecrease w) :
    Pace (w.classifyDecrease c).1 (w.classifyDecrease c).2 := by
  refine classifyDecrease_elim (fun _ => trivial) fun htrivial => ?_
  rcases hw with hrelief | hchange | ⟨hidle, hgain⟩
  · exact .inl hrelief
  · exact .inr hchange
  · have hforetold := mul_nonpos_of_nonneg_of_nonpos hc.tuner2 hidle
    exact absurd (hforetold.trans_lt (sub_pos.mpr hgain)) htrivial

theorem pace_trivialDecrease (hw : Pace .trivialDecrease w) :
    Pace w.trivialDecrease.1 w.trivialDecrease.2 := by
  unfold trivialDecrease
  dsimp only
  split <;> split <;> exact hw

theorem pace_nontrivialDecrease : Pace (w.nontrivialDecrease c).1 (w.nontrivialDecrease c).2 :=
  nontrivialDecrease_elim trivial (fun _ h => by cases h) (.inl one_pos)

theorem pace_fletcherRadius (hc : c.Paced) (hw : Pace .fletcherRadius w) :
    Pace (w.fletcherRadius c).1 (w.fletcherRadius c).2 := by
  unfold fletcherRadius
  refine hw.imp_left fun hrelief => ?_
  dsimp only [note]
  split
  · exact mul_pos hrelief (lt_max_of_lt_left hc.radfacMin)
  · exact mul_pos (by norm_num) hrelief

theorem pace_falseConvergenceTest (hc : c.Paced) (hw : Pace .falseConvergenceTest w) :
    Pace (w.falseConvergenceTest c).1 (w.falseConvergenceTest c).2 := by
  have hfactor (hchange : ¬w.search.record.change ≤ c.falseConvergeTol) :
      0 < w.search.record.radiusFactor := by
    rcases hw with hfactor | hzero
    · exact hfactor
    · rw [hzero] at hchange
      exact absurd hc.falseConvergeTol hchange
  exact falseConvergenceTest_elim (fun _ => .inl trivial) (fun hchange _ _ => hfactor hchange)
    fun hchange _ _ => hfactor hchange

theorem pace_goodDecrease (hc : c.Paced) : Pace (w.goodDecrease c).1 (w.goodDecrease c).2 := by
  refine goodDecrease_elim trivial (fun _ h => by cases h) fun factor hfactor _ => ?_
  change 0 < factor
  rcases hfactor with rfl | ⟨v, rfl⟩
  · exact hc.radfacMax
  · exact lt_max_of_lt_left hc.increase

theorem final_guides {v : Verdict} (hv : v.Final) (r : Record ℝ p) : r.Guides v := by
  rintro rfl
  exact hv.elim

theorem pace_done (hw : w.search.verdict.Final ∨ w.search.record.Guides w.search.verdict ∧
    w.search.record.Guides w.search.record.resume) : Pace .done w := by
  rcases hw with hfinal | ⟨hguides, hresume⟩
  · refine ⟨final_guides hfinal _, fun hprobe => ?_⟩
    rw [hprobe] at hfinal
    exact hfinal.elim
  · exact ⟨hguides, fun _ => .inr hresume⟩

theorem pace_convergenceTests (hw : Pace .convergenceTests w) :
    Pace (w.convergenceTests c).1 (w.convergenceTests c).2 := by
  refine convergenceTests_elim (fun v hnext => ?_) fun v _ hnext => ?_
  · rcases hnext with ⟨hfinal, -⟩ | rfl
    · exact pace_done (w := w.rule v) (.inl hfinal)
    · exact pace_done hw
  · rcases hnext with ⟨hfinal, -⟩ | rfl
    · exact .inl hfinal
    · exact hw

theorem pace_singularScreen (hw : Pace .singularScreen w) :
    Pace (w.singularScreen c).1 (w.singularScreen c).2 := by
  refine singularScreen_elim (pace_done hw) fun hcode => ?_
  exact hw.imp_left fun hfinal => hfinal.eq_falseConverged hcode

theorem pace_requestProbe (hw : Pace .requestProbe w) :
    Pace w.requestProbe.1 w.requestProbe.2 := by
  refine requestProbe_elim hw ⟨fun h => (by cases h), fun _ => ?_⟩
  by_cases hfalse : w.search.verdict = .falseConverged
  · exact .inl (if_pos hfalse)
  · rcases hw with h | ⟨-, hresume⟩
    · exact absurd h hfalse
    · exact .inr hresume

theorem pace_undone (hw : w.search.verdict = .falseConverged ∨
    w.search.record.Guides w.search.verdict ∧
      w.search.record.Guides w.search.record.resume) : Pace .done w := by
  refine pace_done (hw.imp_left fun hfalse => ?_)
  rw [hfalse]
  trivial

theorem pace_singularTest (hw : Pace .singularTest w) :
    Pace (w.singularTest c).1 (w.singularTest c).2 := by
  exact singularTest_elim (pace_done (.inl trivial)) (pace_undone hw)

theorem pace_transition (hc : c.Paced) (entry : Verdict) {node : Node} (hw : Pace node w) :
    Pace (w.transition c entry node).1 (w.transition c entry node).2 := by
  cases node with
  | beginIteration =>
    have hrelief : 0 < w.relief := by
      rw [hw.1]
      exact one_pos
    exact beginIteration_elim (fun _ => trivial) fun _ => .inl hrelief
  | retryDecision =>
    have hrelief : 0 < w.relief := by
      rw [hw.1.1]
      exact one_pos
    exact retryDecision_elim (fun _ => hw) fun _ => .inl hrelief
  | newModelTried => exact hw
  | recomputedStep => exact pace_recomputedStep hw
  | checkOversize => exact checkOversize_elim (fun _ => hw) (fun _ _ => hw) fun _ _ => trivial
  | shrink => exact pace_shrink hc
  | compareWithBest =>
    have hrelief : 0 < w.relief := by
      rw [hw.1.1]
      exact one_pos
    exact compareWithBest_elim (fun _ => .inl hrelief) (fun _ _ => hw) fun _ _ => hw
  | restoreBest => exact pace_restoreBest hw
  | measureStep => exact pace_measureStep hw
  | classifyDecrease => exact pace_classifyDecrease hc hw
  | trivialDecrease => exact pace_trivialDecrease hw
  | nontrivialDecrease => exact pace_nontrivialDecrease
  | fletcherRadius => exact pace_fletcherRadius hc hw
  | falseConvergenceTest => exact pace_falseConvergenceTest hc hw
  | goodDecrease => exact pace_goodDecrease hc
  | saveBest => exact hw
  | keepRadius => exact fun h => by cases h
  | recordCode => exact .inr ⟨hw, hw⟩
  | convergenceTests => exact pace_convergenceTests hw
  | singularScreen => exact pace_singularScreen hw
  | singularStepLength => exact singularStepLength_elim (pace_undone hw) hw
  | requestProbe => exact pace_requestProbe hw
  | singularTest => exact pace_singularTest hw
  | resumeAfterConvergence => exact hw.elim
  | probed => exact hw.elim
  | done => exact hw

end Pass

namespace Search

variable {c : Config ℝ} {e s : Search ℝ p}

theorem pace_entry (he : e.Ready) (hpaced : e.Paced) : Pass.Pace e.verdict.entry e.pass := by
  have hfair : e.pass.Fair := ⟨rfl, hpaced.length, hpaced.stays⟩
  refine he.entry_elim (fun _ => hfair) (fun hv => ?_) (fun hv => ?_) fun hv => ?_
  · exact ⟨hfair, hpaced.best (by rw [hv]; decide)⟩
  · exact ⟨hfair, hpaced.best (by rw [hv]; decide)⟩
  · exact ⟨hfair, hpaced.best (by rw [hv]; decide)⟩

theorem assess_pace (hc : c.Paced) (he : e.Ready) (hpaced : e.Paced) :
    (assess c e).record.Guides (assess c e).verdict ∧ ((assess c e).verdict = .probe →
      (assess c e).record.bestLength = -(assess c e).trial.length ∨
        (assess c e).record.Guides (assess c e).record.resume) := by
  obtain ⟨w, hw, heq⟩ :=
    he.assess_invariant (c := c) (pace_entry he hpaced) (Pass.pace_transition hc e.verdict)
  rw [heq]
  exact hw

section

variable {q : Vector ℝ p → ℝ → ℝ → Prop}
  (htrial : q e.trial.step e.trial.length e.trial.reduction)
  (hbest : ¬e.Opens → e.record.bestF < e.iterate.f₀ →
    q e.record.bestStep e.record.bestLength e.record.bestReduction)
include htrial hbest

theorem Taken.holds {t : Trial ℝ p} {f : ℝ} {x : Vector ℝ p} {model : Model}
    (h : e.Taken t f x model) : q t.step t.length t.reduction := by
  cases h with
  | back hopens _ _ hgain => exact hbest hopens (not_le.mp hgain)
  | tooFarBack hopens _ _ hgain => exact hbest hopens (not_le.mp hgain)
  | _ => exact htrial

theorem Judged.best_holds (h : e.Judged c s)
    (hv : s.verdict = .otherOrShorter ∨ s.verdict = .otherOrAccept ∨ s.verdict = .recompute)
    (hgain : s.record.bestF < e.iterate.f₀) :
    q s.record.bestStep s.record.bestLength s.record.bestReduction := by
  obtain ⟨t, -, hshrunk | ⟨-, hkept⟩⟩ := h.again hv
  · rcases hshrunk.best with
      ⟨hbestF, -, hstep, hlength, hreduction, -, hopens⟩ | ⟨-, hbestF, -⟩
    · have hbestF : s.record.bestF = e.record.bestF := hbestF
      have hstep : s.record.bestStep = e.record.bestStep := hstep
      have hlength : s.record.bestLength = e.record.bestLength := hlength
      have hreduction : s.record.bestReduction = e.record.bestReduction := hreduction
      rw [hbestF] at hgain
      rw [hstep, hlength, hreduction]
      exact hbest hopens hgain
    · have hbestF : s.record.bestF = e.iterate.f₀ := hbestF
      rw [hbestF] at hgain
      exact absurd hgain (lt_irrefl _)
  · rcases hkept with hstays | ⟨hmoved, -, -, hstep, hlength, hreduction, -⟩
    · exact absurd hstays.no_gain (not_le.mpr hgain)
    · have hstep : s.record.bestStep = t.step := hstep
      have hlength : s.record.bestLength = t.length := hlength
      have hreduction : s.record.bestReduction = t.reduction := hreduction
      rw [hstep, hlength, hreduction]
      exact Taken.holds htrial hbest hmoved

end

theorem probe_pace (hv : s.verdict = .probe) (hlength : 0 ≤ s.trial.length)
    (hs : s.record.bestLength = -s.trial.length ∨ s.record.Guides s.record.resume)
    (t : Trial ℝ p) :
    (assess c { s with trial := t }).record.Guides (assess c { s with trial := t }).verdict := by
  obtain ⟨v, heq, hverdict⟩ := assess_probe c (s := { s with trial := t }) hv
  rw [heq]
  rintro rfl
  rcases hverdict with hsingular | hresume
  · cases hsingular
  · dsimp only at hresume ⊢
    split at hresume
    · cases hresume
    next hpositive =>
    rcases hs with hneg | hguides
    · rw [hneg] at hpositive
      exact absurd (neg_nonpos.mpr hlength) hpositive
    · exact hguides hresume.symm

end Search

end LeastSquares
