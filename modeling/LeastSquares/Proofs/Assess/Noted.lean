import LeastSquares.Proofs.Assess.Origin
import LeastSquares.Proofs.Assess.Pace
import LeastSquares.Proofs.Assess.Precedence

namespace LeastSquares

theorem Verdict.Final.ne_probe {v : Verdict} (h : v.Final) : v ≠ .probe := by
  rintro rfl
  exact h

variable {α : Type} [Scalar α] {p : Nat}

namespace Search

variable (c : Config α) (e : Search α p)

/-- The gain of the best step is more than a trivial part of what was foretold. -/
def Worthwhile : Prop := c.tuner2 * e.record.bestReduction < e.iterate.f₀ - e.record.bestF

/-- The change that is noted before a trial is that of the best step, if this step is
worthwhile. -/
def Tells : Prop :=
  ¬e.Opens → ¬e.iterate.f₀ ≤ e.record.bestF → e.Worthwhile c →
    e.record.change =
      relativeStep e.iterate.d (e.iterate.x₀ + e.record.bestStep) e.iterate.x₀

/-- The best step was put back though it is not worthwhile, and the change is that of the trial
it was put back for. -/
structure Strays (s : Search α p) : Prop where
  reverts : e.Reverts
  trivial : ¬e.Worthwhile c
  x : s.iterate.x = e.iterate.x₀ + e.record.bestStep
  f : s.iterate.f = e.record.bestF
  reduction : s.trial.reduction = e.record.bestReduction
  change : s.record.change = relativeStep e.iterate.d e.iterate.x e.iterate.x₀

/-- What the change that was noted has to do with the point that is left. -/
inductive Marks (s : Search α p) : Prop where
  | point : s.record.change = relativeStep e.iterate.d s.iterate.x e.iterate.x₀ → Marks s
  | stayed : s.iterate.x = e.iterate.x₀ → s.iterate.f = e.iterate.f₀ → Marks s
  | putBack : e.Strays c s → Marks s

structure Noted (s : Search α p) : Prop where
  marks : s.record.stage < 0 ∧ s.record.change = e.record.change ∨
    ¬s.record.stage < 0 ∧ e.Marks c s
  tested : s.verdict = .falseConverged → s.record.change ≤ c.falseConvergeTol
  /-- A probe that is not for a false convergence notes the length as it is. -/
  waits : s.verdict = .probe →
    s.record.change ≤ c.falseConvergeTol ∨ s.record.bestLength = s.trial.length

variable {c e} {s s' : Search α p}

theorem Marks.congr (h : e.Marks c s) (hiterate : s'.iterate = s.iterate)
    (hreduction : s'.trial.reduction = s.trial.reduction)
    (hchange : s'.record.change = s.record.change) : e.Marks c s' := by
  cases h with
  | point h => exact .point (by rw [hchange, hiterate, h])
  | stayed hx hf => exact .stayed (by rw [hiterate, hx]) (by rw [hiterate, hf])
  | putBack h =>
    refine .putBack ⟨h.reverts, h.trivial, ?_, ?_, hreduction.trans h.reduction,
      hchange.trans h.change⟩
    · rw [hiterate, h.x]
    · rw [hiterate, h.f]

/-- The verdict of false convergence has been tested for, if it is given. -/
def Tested (c : Config α) (s : Search α p) : Prop :=
  s.verdict = .falseConverged → s.record.change ≤ c.falseConvergeTol

theorem Assessed.ne_badInput (h : e.Assessed c s) : s.verdict ≠ .badInput := by
  intro hv
  rcases h with hshrunk | ⟨-, -, hfinal | hruling | hasks⟩
  · exact absurd (hshrunk.verdict.symm.trans hv) (by decide)
  · rw [hv] at hfinal
    exact hfinal
  · rw [hv] at hruling
    exact hruling
  · exact absurd (hasks.verdict.symm.trans hv) (by decide)

theorem Ruling.ne {kept : Prop} {v : Verdict} (h : e.Ruling c s kept v) :
    v ≠ .falseConverged ∧ v ≠ .probe := by
  constructor
  · rintro rfl
    exact h
  · rintro rfl
    exact h

end Search

namespace Pass

/-- What is known of the change once the trial was measured, and whose point is judged. -/
def Seen (e : Search α p) (w : Pass α p) : Prop :=
  w.search.record.change = e.record.change ∧
    w.change = relativeStep e.iterate.d e.iterate.x e.iterate.x₀ ∧
    (w.current = true ∧ w.search.iterate.x = e.iterate.x ∨
      w.current = false ∧ e.Reverts ∧ w.search.iterate.x = e.iterate.x₀ + e.record.bestStep ∧
        w.search.iterate.f = e.record.bestF ∧
        w.search.trial.reduction = e.record.bestReduction)

/-- What is known of the change before each node. It is measured before the best step is put
back, and noted only where the trial itself is judged or the gain is trivial. -/
def Noting (c : Config α) (e : Search α p) : Node → Pass α p → Prop
  | .beginIteration, w | .retryDecision, w | .newModelTried, w | .recomputedStep, w
  | .checkOversize, w | .compareWithBest, w | .restoreBest, w => w.current = true ∧
      w.search.record.restored = false ∧ w.search.record.change = e.record.change
  | .measureStep, w => w.search.record.change = e.record.change ∧
      (w.current = true ∧ w.search.record.restored = false ∨
        w.current = false ∧ w.search.record.restored = true ∧ e.Reverts)
  | .shrink, w => w.search.record.change = e.record.change
  | .classifyDecrease, w | .nontrivialDecrease, w => w.Seen e
  | .trivialDecrease, w => w.Seen e ∧
      ¬c.tuner2 * w.search.trial.reduction < e.iterate.f₀ - w.search.iterate.f
  | .fletcherRadius, w | .falseConvergenceTest, w | .goodDecrease, w | .saveBest, w
  | .keepRadius, w | .recordCode, w => e.Marks c w.search
  | .convergenceTests, w | .singularScreen, w | .singularStepLength, w | .requestProbe, w
  | .singularTest, w => e.Marks c w.search ∧ w.search.Tested c
  | .done, w => e.Noted c w.search
  | .resumeAfterConvergence, _ | .probed, _ => False

variable {c : Config α} {e : Search α p} {w : Pass α p}

theorem recomputedStep_spec (hflow : Flow c e .recomputedStep w) :
    w.recomputedStep = (.checkOversize, w) ∨ w.recomputedStep = (.shrink, w) ∨
      ∃ node, w.recomputedStep =
          (node, w.note { w.search.record with stage := -w.search.record.stage }) ∧
        (node = .retryDecision ∨ node = .newModelTried ∨ node = .measureStep ∨
          node = .compareWithBest) := by
  have hnext := flow_recomputedStep hflow
  unfold recomputedStep at hnext ⊢
  split
  · exact .inl rfl
  next hstage =>
  rw [if_neg hstage] at hnext
  split
  · exact .inr (.inl rfl)
  next hover =>
  rw [if_neg hover] at hnext
  dsimp only at hnext ⊢
  refine .inr (.inr ?_)
  cases hresume : w.search.record.resume <;> simp only [hresume] at hnext
  case otherOrShorter => exact ⟨_, rfl, .inl rfl⟩
  case otherOrAccept => exact ⟨_, rfl, .inr (.inl rfl)⟩
  case acceptByGradient => exact ⟨_, rfl, .inr (.inr (.inl rfl))⟩
  case accept => exact ⟨_, rfl, .inr (.inr (.inl rfl))⟩
  case recompute => exact ⟨_, rfl, .inr (.inr (.inr rfl))⟩
  all_goals exact absurd rfl (Search.Assessed.ne_badInput hnext)

theorem noting_recomputedStep (hflow : Flow c e .recomputedStep w)
    (hw : Noting c e .recomputedStep w) :
    Noting c e w.recomputedStep.1 w.recomputedStep.2 := by
  obtain ⟨hcurrent, hrestored, hchange⟩ := hw
  rcases recomputedStep_spec hflow with heq | heq | ⟨node, heq, rfl | rfl | rfl | rfl⟩ <;>
    rw [heq]
  · exact ⟨hcurrent, hrestored, hchange⟩
  · exact hchange
  · exact ⟨hcurrent, hrestored, hchange⟩
  · exact ⟨hcurrent, hrestored, hchange⟩
  · exact ⟨hchange, .inl ⟨hcurrent, hrestored⟩⟩
  · exact ⟨hcurrent, hrestored, hchange⟩

theorem noting_shrink (hflow : Flow c e .shrink w) (hw : Noting c e .shrink w) :
    Noting c e (w.shrink c).1 (w.shrink c).2 :=
  ⟨.inl ⟨hflow.waits, hw⟩, nofun, nofun⟩

theorem noting_restoreBest (hflow : Flow c e .restoreBest w) (hw : Noting c e .restoreBest w) :
    Noting c e w.restoreBest.1 w.restoreBest.2 := by
  obtain ⟨k, m, b, hs, hopens, -, hback⟩ := hflow
  obtain ⟨hcurrent, hrestored, hchange⟩ := hw
  refine restoreBest_elim (fun _ => ⟨hchange, .inl ⟨hcurrent, hrestored⟩⟩) fun hgain => ?_
  have hgain : ¬e.iterate.f₀ ≤ e.record.bestF := by
    rw [hs] at hgain
    exact hgain
  exact ⟨hchange, .inr ⟨rfl, rfl, hopens, hgain,
    hback.symm.imp And.left fun h => h.2.1⟩⟩

theorem noting_measureStep (hflow : Flow c e .measureStep w) (hw : Noting c e .measureStep w) :
    Noting c e w.measureStep.1 w.measureStep.2 := by
  obtain ⟨k, -, ⟨⟨hrestored, -, -, hiterate⟩, -⟩ | 
    ⟨⟨hrestored, -, hstep, htrial, hiterate⟩, -⟩⟩ := hflow
  · obtain ⟨hchange, ⟨hcurrent, -⟩ | ⟨-, hnot, -⟩⟩ := hw
    · refine measureStep_elim (fun _ => ?_) (by simp [hrestored])
      refine ⟨hchange, ?_, .inl ⟨hcurrent, ?_⟩⟩
      · dsimp only
        rw [hiterate]
      · dsimp only
        rw [hiterate]
    · rw [hrestored] at hnot
      cases hnot
  · obtain ⟨hchange, ⟨-, hnot⟩ | ⟨hcurrent, -, hreverts⟩⟩ := hw
    · rw [hrestored] at hnot
      cases hnot
    · have hreduction : w.search.trial.reduction = e.record.bestReduction :=
        congrArg Trial.reduction htrial
      refine measureStep_elim (by simp [hrestored]) fun _ => ?_
      refine ⟨hchange, ?_, .inr ⟨hcurrent, hreverts, ?_, ?_, hreduction⟩⟩
      · dsimp only
        rw [hiterate]
      · dsimp only
        rw [hiterate, hstep]
      · dsimp only
        rw [hiterate]

theorem noting_classifyDecrease (hflow : Flow c e .classifyDecrease w)
    (hw : Noting c e .classifyDecrease w) :
    Noting c e (w.classifyDecrease c).1 (w.classifyDecrease c).2 := by
  refine classifyDecrease_elim (fun _ => hw) fun htrivial => ?_
  rw [hflow.1.f₀] at htrivial
  exact ⟨hw, htrivial⟩

theorem noting_trivialDecrease (hflow : Flow c e .trivialDecrease w)
    (hw : Noting c e .trivialDecrease w) :
    Noting c e w.trivialDecrease.1 w.trivialDecrease.2 := by
  obtain ⟨⟨-, hchange, hplace⟩, htrivial⟩ := hw
  have hmarks : e.Marks c (if w.search.iterate.f₀ ≤ w.search.iterate.f then
      { w.search with
        iterate := { w.search.iterate with f := w.search.iterate.f₀, x := w.search.iterate.x₀ }
        record := { w.search.record with
          change := w.change
          bestModel := w.search.iterate.model
          bestF := w.search.iterate.f
          restored := true } }
      else { w.search with record := { w.search.record with change := w.change } }) := by
    split
    · exact .stayed hflow.1.x₀ hflow.1.f₀
    · rcases hplace with ⟨-, hx⟩ | ⟨-, hreverts, hx, hf, hreduction⟩
      · refine .point ?_
        dsimp only
        rw [hchange, hx]
      · rw [hreduction, hf] at htrivial
        exact .putBack ⟨hreverts, htrivial, hx, hf, hreduction, hchange⟩
  unfold trivialDecrease
  dsimp only
  split
  · exact hmarks.congr rfl rfl rfl
  · exact hmarks.congr rfl rfl rfl

theorem noting_nontrivialDecrease (htells : e.Tells c) (hflow : Flow c e .nontrivialDecrease w)
    (hw : Noting c e .nontrivialDecrease w) :
    Noting c e (w.nontrivialDecrease c).1 (w.nontrivialDecrease c).2 := by
  obtain ⟨hbefore, hchange, hplace⟩ := hw
  have hpoint : (if w.current = true then w.change else w.search.record.change) =
      relativeStep e.iterate.d w.search.iterate.x e.iterate.x₀ := by
    rcases hplace with ⟨hcurrent, hx⟩ | ⟨hcurrent, hreverts, hx, hf, hreduction⟩
    · rw [if_pos hcurrent, hchange, hx]
    · have hworthwhile : e.Worthwhile c := by
        have hgain := hflow.2.2
        rw [hreduction, hf] at hgain
        exact hgain
      rw [if_neg (by simp [hcurrent]), hbefore, hx]
      exact htells hreverts.1 hreverts.2.1 hworthwhile
  exact nontrivialDecrease_elim (.point hpoint) (fun _ => .point hpoint) (.point hpoint)

theorem noting_fletcherRadius (hw : Noting c e .fletcherRadius w) :
    Noting c e (w.fletcherRadius c).1 (w.fletcherRadius c).2 :=
  hw.congr rfl rfl rfl

theorem noting_falseConvergenceTest (hw : Noting c e .falseConvergenceTest w) :
    Noting c e (w.falseConvergenceTest c).1 (w.falseConvergenceTest c).2 :=
  falseConvergenceTest_elim (fun hsmall => ⟨hw.congr rfl rfl rfl, fun _ => hsmall⟩)
    (fun _ _ => hw.congr rfl rfl rfl) fun _ _ => hw.congr rfl rfl rfl

theorem noting_goodDecrease (hw : Noting c e .goodDecrease w) :
    Noting c e (w.goodDecrease c).1 (w.goodDecrease c).2 :=
  goodDecrease_elim hw (fun _ => hw.congr rfl rfl rfl) fun _ _ => hw.congr rfl rfl rfl

theorem noting_recordCode (hflow : Flow c e .recordCode w) (hw : Noting c e .recordCode w) :
    Noting c e w.recordCode.1 w.recordCode.2 :=
  ⟨hw.congr rfl rfl rfl, fun hv => absurd hv hflow.2.2.ne.1⟩

theorem noted_of_tested (hframed : e.Framed w.search) (hmarks : e.Marks c w.search)
    (htested : w.search.Tested c) (hv : w.search.verdict ≠ .probe) : Noting c e .done w :=
  ⟨.inr ⟨hframed.measured, hmarks⟩, htested, fun hprobe => absurd hprobe hv⟩

theorem noting_convergenceTests (hflow : Flow c e .convergenceTests w)
    (hw : Noting c e .convergenceTests w) :
    Noting c e (w.convergenceTests c).1 (w.convergenceTests c).2 := by
  obtain ⟨hframed, -, hverdict⟩ := hflow
  obtain ⟨hmarks, htested⟩ := hw
  have hnext {v : Verdict} (hv : w.search.verdict.Next v)
      (hfalse : v = .falseConverged) : w.search.record.change ≤ c.falseConvergeTol := by
    rcases hv with ⟨-, hnot⟩ | rfl
    · exact absurd hfalse hnot
    · exact htested hfalse
  refine convergenceTests_elim (fun v hv => ?_) fun v _ hv => ?_
  · refine noted_of_tested (w := w.rule v) (hframed.moved rfl rfl) (hmarks.congr rfl rfl rfl)
      (hnext hv) ?_
    rcases hv with ⟨hfinal, -⟩ | rfl
    · exact hfinal.ne_probe
    · rcases hverdict with hfalse | ⟨-, hruling⟩
      · rw [rule, hfalse]
        decide
      · exact hruling.ne.2
  · exact ⟨hmarks.congr rfl rfl rfl, hnext hv⟩

theorem noting_singularScreen (hflow : Flow c e .singularScreen w)
    (hw : Noting c e .singularScreen w) :
    Noting c e (w.singularScreen c).1 (w.singularScreen c).2 := by
  have hdone : Noting c e .done w := by
    refine noted_of_tested hflow.1 hw.1 hw.2 ?_
    rcases hflow.2.2 with hfinal | ⟨-, hruling⟩
    · exact hfinal.ne_probe
    · exact hruling.ne.2
  exact singularScreen_elim hdone fun _ => hw

theorem noting_singularStepLength (hflow : Flow c e .singularStepLength w)
    (hw : Noting c e .singularStepLength w) :
    Noting c e (w.singularStepLength c).1 (w.singularStepLength c).2 := by
  refine singularStepLength_elim (noted_of_tested hflow.1 hw.1 hw.2 ?_) hw
  rcases hflow.2.2 with hfalse | ⟨-, hruling⟩
  · rw [hfalse]
    decide
  · exact hruling.ne.2

theorem noting_requestProbe (hflow : Flow c e .requestProbe w) (hw : Noting c e .requestProbe w) :
    Noting c e w.requestProbe.1 w.requestProbe.2 := by
  obtain ⟨hmarks, htested⟩ := hw
  refine requestProbe_elim ⟨hmarks, htested⟩
    ⟨.inr ⟨hflow.1.measured, hmarks.congr rfl rfl rfl⟩, nofun, fun _ => ?_⟩
  by_cases hfalse : w.search.verdict = .falseConverged
  · exact .inl (htested hfalse)
  · exact .inr (if_neg hfalse)

theorem noting_singularTest (hflow : Flow c e .singularTest w) (hw : Noting c e .singularTest w) :
    Noting c e (w.singularTest c).1 (w.singularTest c).2 := by
  have hne : w.search.verdict ≠ .probe := by
    rcases hflow.2.2 with hfinal | hruling
    · exact hfinal.ne_probe
    · exact hruling.ne.2
  exact singularTest_elim
    (noted_of_tested (hflow.1.moved rfl rfl) (hw.1.congr rfl rfl rfl) nofun nofun)
    (noted_of_tested hflow.1 hw.1 hw.2 hne)

theorem noting_transition (htells : e.Tells c) {node : Node} (hflow : Flow c e node w)
    (hw : Noting c e node w) :
    Noting c e (w.transition c e.verdict node).1 (w.transition c e.verdict node).2 := by
  cases node with
  | beginIteration =>
    exact beginIteration_elim (fun _ => hw.2.2) fun _ => ⟨hw.2.2, .inl ⟨hw.1, hw.2.1⟩⟩
  | retryDecision => exact retryDecision_elim (fun _ => hw) fun _ => ⟨hw.2.2, .inl ⟨hw.1, hw.2.1⟩⟩
  | newModelTried => exact hw
  | recomputedStep => exact noting_recomputedStep hflow hw
  | checkOversize => exact checkOversize_elim (fun _ => hw) (fun _ _ => hw) fun _ _ => hw.2.2
  | shrink => exact noting_shrink hflow hw
  | compareWithBest =>
    exact compareWithBest_elim (fun _ => ⟨hw.2.2, .inl ⟨hw.1, hw.2.1⟩⟩) (fun _ _ => hw)
      fun _ _ => hw
  | restoreBest => exact noting_restoreBest hflow hw
  | measureStep => exact noting_measureStep hflow hw
  | classifyDecrease => exact noting_classifyDecrease hflow hw
  | trivialDecrease => exact noting_trivialDecrease hflow hw
  | nontrivialDecrease => exact noting_nontrivialDecrease htells hflow hw
  | fletcherRadius => exact noting_fletcherRadius hw
  | falseConvergenceTest => exact noting_falseConvergenceTest hw
  | goodDecrease => exact noting_goodDecrease hw
  | saveBest => exact hw.congr rfl rfl rfl
  | keepRadius => exact hw.congr rfl rfl rfl
  | resumeAfterConvergence => exact hw.elim
  | recordCode => exact noting_recordCode hflow hw
  | convergenceTests => exact noting_convergenceTests hflow hw
  | singularScreen => exact noting_singularScreen hflow hw
  | singularStepLength => exact noting_singularStepLength hflow hw
  | requestProbe => exact noting_requestProbe hflow hw
  | probed => exact hw.elim
  | singularTest => exact noting_singularTest hflow hw
  | done => exact hw

end Pass

namespace Search

variable {c : Config α} {e s : Search α p}

theorem noting_entry (he : e.Ready) : Pass.Noting c e e.verdict.entry e.pass :=
  he.entry_elim (fun _ => ⟨rfl, rfl, rfl⟩) (fun _ => ⟨rfl, rfl, rfl⟩) (fun _ => ⟨rfl, rfl, rfl⟩)
    fun _ => ⟨rfl, rfl, rfl⟩

theorem assess_noted (he : e.Ready) (hcmp : e.Comparable) (htells : e.Tells c) :
    e.Noted c (assess c e) := by
  obtain ⟨w, hw, heq⟩ :=
    he.assess_invariant_with hcmp (noting_entry he) (Pass.noting_transition htells)
  rw [heq]
  exact hw

end Search

namespace Search

variable {c : Config ℝ} {e s : Search ℝ p}

/-- A probe leaves what was noted as it is. Where it gives a false convergence that was not
tested for, the step had no length. -/
theorem Noted.probed (hn : e.Noted c s) (h : e.Assessed c s) (hv : s.verdict = .probe)
    (hlength : 0 ≤ s.trial.length) (t : Trial ℝ p) :
    (assess c { s with trial := t }).iterate = s.iterate ∧
      (¬(assess c { s with trial := t }).record.stage < 0 ∧
        e.Marks c (assess c { s with trial := t })) ∧
      ((assess c { s with trial := t }).verdict = .falseConverged →
        (assess c { s with trial := t }).record.change ≤ c.falseConvergeTol ∨
          s.trial.length = 0) := by
  rcases h with hshrunk | ⟨hframed, -, hfinal | hruling | hasks⟩
  · exact absurd (hshrunk.verdict.symm.trans hv) (by decide)
  · exact absurd hv hfinal.ne_probe
  · exact absurd hv hruling.ne.2
  obtain ⟨-, hmarks⟩ := hn.marks.resolve_left fun h => hframed.measured h.1
  obtain ⟨v, heq, hverdict⟩ := assess_probe c (s := { s with trial := t }) hv
  rw [heq]
  refine ⟨rfl, ⟨hframed.measured, hmarks.congr rfl hasks.reduction rfl⟩, fun hfalse => ?_⟩
  dsimp only at hfalse hverdict ⊢
  rcases hn.waits hv with hsmall | hbest
  · exact .inl hsmall
  refine .inr ?_
  rcases hverdict with hsingular | hresume
  · rw [hsingular] at hfalse
    cases hfalse
  rw [hresume, hbest] at hfalse
  split at hfalse
  · next hnot => exact le_antisymm hnot hlength
  · rcases hasks.length with hneg | ⟨-, hruling⟩
    · rw [hbest] at hneg
      exact self_eq_neg.mp hneg
    · exact absurd hfalse hruling.ne.1

/-- The trial is a step from the iterate, and steps of no length change nothing. -/
structure Stills (e : Search ℝ p) : Prop where
  place : e.iterate.x = e.iterate.x₀ + e.trial.step
  trial : e.trial.length = 0 → relativeStep e.iterate.d e.iterate.x e.iterate.x₀ = 0
  best : ¬e.Opens → e.record.bestF < e.iterate.f₀ → e.record.bestLength = 0 →
    relativeStep e.iterate.d (e.iterate.x₀ + e.record.bestStep) e.iterate.x₀ = 0

theorem Taken.placed (he : e.Stills) {t : Trial ℝ p} {f : ℝ} {x : Vector ℝ p} {model : Model}
    (h : e.Taken t f x model) : x = e.iterate.x₀ + t.step ∧
      (t.length = 0 → relativeStep e.iterate.d x e.iterate.x₀ = 0) := by
  cases h with
  | back hopens _ _ hgain => exact ⟨rfl, he.best hopens (not_le.mp hgain)⟩
  | tooFarBack hopens _ _ hgain => exact ⟨rfl, he.best hopens (not_le.mp hgain)⟩
  | _ => exact ⟨he.place, he.trial⟩

theorem Placed.still (he : e.Stills) (h : e.Placed c s) (hlength : s.trial.length = 0) :
    relativeStep e.iterate.d s.iterate.x e.iterate.x₀ = 0 := by
  rcases h with ⟨hmoved, -⟩ | hstays
  · exact (Taken.placed he hmoved).2 hlength
  · have hx : s.iterate.x = e.iterate.x₀ := hstays.x
    rw [hx]
    exact relativeStep_self _ _

theorem Judged.tells (he : e.Stills) (htells : e.Tells c) (h : e.Judged c s)
    (hmarks : s.record.stage < 0 ∧ s.record.change = e.record.change ∨
      ¬s.record.stage < 0 ∧ e.Marks c s)
    (hv : s.verdict = .otherOrShorter ∨ s.verdict = .otherOrAccept ∨ s.verdict = .recompute) :
    s.Tells c := by
  have hx₀ := h.x₀_eq
  have hf₀ := h.f₀_eq
  have hd := h.d_eq
  intro hopens hgain hworthwhile
  unfold Worthwhile at hworthwhile
  rw [hf₀] at hgain hworthwhile
  rw [hx₀, hd]
  obtain ⟨t, hreduction, hshrunk | ⟨hframed, hkept⟩⟩ := h.again hv
  -- The trial was too large and only its stage was negated: the best step is still that of the
  -- record.
  · obtain ⟨-, hchange⟩ := hmarks.resolve_right fun h => h.1 hshrunk.waits
    rcases hshrunk.best with ⟨hbestF, -, hstep, -, hbestReduction, -, hnot⟩ | ⟨-, -, hnot⟩
    · have hbestF : s.record.bestF = e.record.bestF := hbestF
      have hstep : s.record.bestStep = e.record.bestStep := hstep
      have hbestReduction : s.record.bestReduction = e.record.bestReduction := hbestReduction
      rw [hbestF] at hgain hworthwhile
      rw [hbestReduction] at hworthwhile
      rw [hchange, hstep]
      exact htells hnot hgain hworthwhile
    · exact absurd hnot hopens
  obtain ⟨-, hmarks⟩ := hmarks.resolve_left fun h => hframed.measured h.1
  rcases hkept with hstays | ⟨hmoved, -, hbestF, hstep, -, hbestReduction, -⟩
  · exact absurd hstays.no_gain hgain
  have hbestF : s.record.bestF = s.iterate.f := hbestF
  have hstep : s.record.bestStep = t.step := hstep
  have hbestReduction : s.record.bestReduction = t.reduction := hbestReduction
  have hplace : s.iterate.x = e.iterate.x₀ + t.step := (Taken.placed he hmoved).1
  cases hmarks with
  | point hchange => rw [hchange, hplace, hstep]
  | stayed _ hf =>
    rw [hbestF, hf] at hgain
    exact absurd le_rfl hgain
  | putBack hstrays =>
    rw [hbestReduction, hreduction, hstrays.reduction, hbestF, hstrays.f] at hworthwhile
    exact absurd hworthwhile hstrays.trivial

end Search

end LeastSquares
