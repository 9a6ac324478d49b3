import LeastSquares.Proofs.Assess.Endless
import LeastSquares.Proofs.Exact

namespace LeastSquares

variable {α : Type} {p : Nat}

/-- The place of a verdict among those that end a fit: where several could be given, that of the
first place is to be. -/
def Verdict.place : Verdict → Nat
  | .bothConverged => 0
  | .xConverged | .relFuncConverged => 1
  | .absFuncConverged => 2
  | .singularConverged => 3
  | .falseConverged => 4
  | _ => 5

theorem Verdict.Final.lt_code {v : Verdict} (h : v.Final) : 5 < v.code := by
  cases v <;> first | exact h.elim | decide

namespace Pass

/-- There was no trial to be tested: it could not be evaluated, or it was entered with what no
assessment leaves. -/
def Untested (w : Pass α p) : Prop :=
  w.search.verdict = .recompute ∧ w.search.iterate.oversized = true ∨
    w.search.verdict = .badInput

variable [Scalar α] (c : Config α) (w : Pass α p)

def Trusted : Prop := ¬w.search.trial.reduction < 1 / 2 * w.search.record.decrease

/-- The trial is a whole Newton step that changes next to nothing. -/
def Settles : Prop :=
  0 ≤ w.search.trial.newtonLength ∧ (w.search.trial.parameter == 0) = true ∧
    w.search.record.change ≤ c.xConvergeTol ∧ w.current = true

def Exhausts : Prop :=
  0 ≤ w.search.trial.newtonLength ∧ 0 < w.search.trial.newtonReduction ∧
    w.search.trial.newtonReduction ≤ c.relFuncTol * Scalar.abs w.search.iterate.f₀

def Flat : Prop :=
  c.initialTrustRadius < w.search.trial.length ∧
    w.search.trial.reduction ≤ c.singularTol * Scalar.abs w.search.iterate.f₀

instance : Decidable (w.Settles c) := inferInstanceAs (Decidable (_ ∧ _))

instance : Decidable (w.Exhausts c) := inferInstanceAs (Decidable (_ ∧ _))

instance : Decidable (w.Flat c) := inferInstanceAs (Decidable (_ ∧ _))

/-- What has to hold for a verdict to be given by the tests for convergence. -/
def Meets : Verdict → Prop
  | .xConverged => w.Trusted ∧ w.Settles c
  | .relFuncConverged => w.Trusted ∧ w.Exhausts c
  | .bothConverged => w.Trusted ∧ w.Settles c ∧ w.Exhausts c
  | .absFuncConverged => Scalar.abs w.search.iterate.f < c.absFuncTol
  | .singularConverged => w.Trusted ∧ w.Flat c
  | _ => False

/-- No verdict of a place before the one given was due, but for one: that of a long step which
gains next to nothing is given even where the objective is next to nothing. -/
def Ranked : Prop :=
  ∀ v, w.Meets c v → w.search.verdict.place ≤ v.place ∨
    w.search.verdict = .singularConverged ∧ v = .absFuncConverged ∧ w.Meets c .singularConverged

theorem smallPrediction_eq (v : Verdict) : w.smallPrediction c v =
    if w.Settles c then if w.Exhausts c then .bothConverged else .xConverged
    else if w.Exhausts c then .relFuncConverged
    else if w.Flat c then .singularConverged else v := by
  unfold smallPrediction
  dsimp only
  by_cases hknown : 0 ≤ w.search.trial.newtonLength
  · have hsmall : (w.search.trial.parameter == 0 &&
        decide (w.search.record.change ≤ c.xConvergeTol) && w.current) =
          decide (w.Settles c) := by
      simp [Settles, hknown, Bool.and_assoc]
    have hrelative : decide (0 < w.search.trial.newtonReduction ∧
        w.search.trial.newtonReduction ≤ c.relFuncTol * Scalar.abs w.search.iterate.f₀) =
          decide (w.Exhausts c) := by
      simp [Exhausts, hknown]
    rw [if_pos hknown, hsmall, hrelative]
    by_cases hsettles : w.Settles c <;> by_cases hexhausts : w.Exhausts c <;>
      simp only [hsettles, hexhausts, decide_true, decide_false, if_true, if_false] <;> rfl
  · have hsettles : ¬w.Settles c := fun h => hknown h.1
    have hexhausts : ¬w.Exhausts c := fun h => hknown h.1
    rw [if_neg hknown, if_neg hsettles, if_neg hexhausts]
    rfl

variable {c w} {entry : Verdict} {node : Node}

def Unmet (c : Config α) (w : Pass α p) : Prop := ∀ v, ¬w.Meets c v

theorem meets_rule (u v : Verdict) : (w.rule u).Meets c v ↔ w.Meets c v := by
  cases v <;> rfl

theorem ranked_rule {u : Verdict} : (w.rule u).Ranked c ↔ ∀ v, w.Meets c v →
    u.place ≤ v.place ∨
      u = .singularConverged ∧ v = .absFuncConverged ∧ w.Meets c .singularConverged := by
  unfold Ranked
  simp only [meets_rule]
  rfl

theorem Unmet.ranked (h : w.Unmet c) : w.Ranked c := fun v hv => absurd hv (h v)

theorem Unmet.rule (h : w.Unmet c) (u : Verdict) : (w.rule u).Unmet c :=
  fun v hv => h v ((meets_rule u v).mp hv)

theorem Meets.one_le {v : Verdict} (hv : w.Meets c v) (h : ¬(w.Settles c ∧ w.Exhausts c)) :
    1 ≤ v.place := by
  cases v with
  | bothConverged => exact absurd hv.2 h
  | _ => decide

theorem Meets.later {v : Verdict} (hv : w.Meets c v) (hsettles : ¬w.Settles c)
    (hexhausts : ¬w.Exhausts c) : v = .absFuncConverged ∨ v = .singularConverged := by
  cases v with
  | xConverged => exact absurd hv.2 hsettles
  | relFuncConverged => exact absurd hv.2 hexhausts
  | bothConverged => exact absurd hv.2.1 hsettles
  | absFuncConverged => exact .inl rfl
  | singularConverged => exact .inr rfl
  | _ => exact hv.elim

theorem ranked_distrusted (h : w.search.trial.reduction < 1 / 2 * w.search.record.decrease)
    (u : Verdict) : (w.rule (if Scalar.abs w.search.iterate.f < c.absFuncTol then
      .absFuncConverged else u)).Ranked c := by
  rw [ranked_rule]
  intro v hv
  cases v with
  | xConverged | relFuncConverged | bothConverged | singularConverged => exact absurd h hv.1
  | absFuncConverged =>
    have hsmall : Scalar.abs w.search.iterate.f < c.absFuncTol := hv
    rw [if_pos hsmall]
    exact .inl (Nat.le_refl _)
  | _ => exact hv.elim

theorem ranked_trusted (h : w.Trusted) (u : Verdict) :
    let v := w.smallPrediction c (if Scalar.abs w.search.iterate.f < c.absFuncTol then
      .absFuncConverged else u)
    (5 < v.code ∧ v ≠ .falseConverged) ∧ (w.rule v).Ranked c ∨ v = u ∧ w.Unmet c := by
  intro v
  have hv : v = _ := w.smallPrediction_eq c _
  rw [ranked_rule]
  by_cases hsettles : w.Settles c
  · rw [if_pos hsettles] at hv
    by_cases hexhausts : w.Exhausts c
    · rw [if_pos hexhausts] at hv
      rw [hv]
      exact .inl ⟨by decide, fun v' _ => .inl (Nat.zero_le _)⟩
    · rw [if_neg hexhausts] at hv
      rw [hv]
      exact .inl ⟨by decide, fun v' hv' => .inl (hv'.one_le fun h => hexhausts h.2)⟩
  rw [if_neg hsettles] at hv
  by_cases hexhausts : w.Exhausts c
  · rw [if_pos hexhausts] at hv
    rw [hv]
    exact .inl ⟨by decide, fun v' hv' => .inl (hv'.one_le fun h => hsettles h.1)⟩
  rw [if_neg hexhausts] at hv
  -- The exception: the objective may be next to nothing as well, and it is not looked at.
  by_cases hflat : w.Flat c
  · rw [if_pos hflat] at hv
    rw [hv]
    refine .inl ⟨by decide, fun v' hv' => ?_⟩
    rcases hv'.later hsettles hexhausts with rfl | rfl
    · exact .inr ⟨rfl, rfl, h, hflat⟩
    · exact .inl (Nat.le_refl _)
  rw [if_neg hflat] at hv
  have hlast {v' : Verdict} (hv' : w.Meets c v') : v' = .absFuncConverged := by
    rcases hv'.later hsettles hexhausts with rfl | rfl
    · rfl
    · exact absurd hv'.2 hflat
  by_cases hsmall : Scalar.abs w.search.iterate.f < c.absFuncTol
  · rw [if_pos hsmall] at hv
    rw [hv]
    refine .inl ⟨by decide, fun v' hv' => .inl ?_⟩
    rw [hlast hv']
  · rw [if_neg hsmall] at hv
    refine .inr ⟨hv, fun v' hv' => ?_⟩
    obtain rfl := hlast hv'
    exact hsmall hv'

/-- What holds before each node: after the tests nothing is due any more that was not given. -/
def Ruled (c : Config α) : Node → Pass α p → Prop
  | .shrink, w => w.search.iterate.oversized = true
  | .singularScreen, w => (5 < w.search.verdict.code ∧ w.search.verdict ≠ .falseConverged) ∧
      w.Ranked c ∨ w.Unmet c
  | .singularStepLength, w | .requestProbe, w | .singularTest, w => w.Unmet c
  | .done, w => w.Untested ∨ w.Ranked c
  | .probed, _ => False
  | _, _ => True

theorem ruled_convergenceTests : Ruled c (w.convergenceTests c).1 (w.convergenceTests c).2 := by
  unfold convergenceTests
  dsimp only
  split
  · next hfar => exact .inr (ranked_distrusted hfar _)
  · next hnear =>
    rcases ranked_trusted (c := c) hnear w.search.verdict with ⟨hcode, hranked⟩ | ⟨-, hunmet⟩
    · exact .inl ⟨hcode, hranked⟩
    · exact .inr (hunmet.rule _)

theorem ruled_singularScreen (hw : Ruled c .singularScreen w) :
    Ruled c (w.singularScreen c).1 (w.singularScreen c).2 := by
  refine singularScreen_elim (.inr (hw.elim And.right Unmet.ranked)) fun hcode => ?_
  exact hw.resolve_left fun h => hcode h.1

theorem ruled_requestProbe (hw : Ruled c .requestProbe w) :
    Ruled c w.requestProbe.1 w.requestProbe.2 := by
  refine requestProbe_elim hw (.inr (Unmet.ranked fun v hv => ?_))
  exact hw v (by cases v <;> exact hv)

theorem ruled_singularTest (hw : Ruled c .singularTest w) :
    Ruled c (w.singularTest c).1 (w.singularTest c).2 := by
  exact singularTest_elim (.inr (Unmet.rule hw _).ranked) (.inr (Unmet.ranked hw))

theorem ruled_recomputedStep : Ruled c w.recomputedStep.1 w.recomputedStep.2 := by
  refine recomputedStep_elim (fun _ => trivial) (fun hover => hover) (fun _ => trivial)
    (fun _ => trivial) (fun _ => trivial) (fun _ => trivial) ?_
  exact .inl (.inr rfl)

theorem ruled_earlier (hnode : node = .retryDecision ∨ node = .newModelTried ∨
    node = .compareWithBest ∨ node = .restoreBest ∨ node = .measureStep ∨
    node = .classifyDecrease ∨ node = .trivialDecrease ∨ node = .nontrivialDecrease ∨
    node = .fletcherRadius ∨ node = .falseConvergenceTest ∨ node = .goodDecrease ∨
    node = .saveBest ∨ node = .keepRadius ∨ node = .resumeAfterConvergence ∨
    node = .recordCode) :
    Ruled c (w.transition c entry node).1 (w.transition c entry node).2 := by
  rcases hnode with rfl | rfl | rfl | rfl | rfl | rfl | rfl | rfl | rfl | rfl | rfl | rfl | rfl |
    rfl | rfl
  all_goals
    simp only [transition, retryDecision, newModelTried, compareWithBest, restoreBest,
      measureStep, classifyDecrease, trivialDecrease, nontrivialDecrease, fletcherRadius,
      falseConvergenceTest, goodDecrease, saveBest, keepRadius, resumeAfterConvergence, recordCode]
    repeat' split
    all_goals trivial

theorem ruled_transition (hw : Ruled c node w) :
    Ruled c (w.transition c entry node).1 (w.transition c entry node).2 := by
  cases node with
  | beginIteration => exact beginIteration_elim (fun hover => hover) fun _ => trivial
  | recomputedStep => exact ruled_recomputedStep
  | checkOversize =>
    exact checkOversize_elim (fun _ => trivial) (fun _ _ => trivial) fun hover _ => hover
  | shrink => exact .inl (.inl ⟨rfl, hw⟩)
  | convergenceTests => exact ruled_convergenceTests
  | singularScreen => exact ruled_singularScreen hw
  | singularStepLength => exact singularStepLength_elim (.inr (Unmet.ranked hw)) hw
  | requestProbe => exact ruled_requestProbe hw
  | probed => exact hw.elim
  | singularTest => exact ruled_singularTest hw
  | done => exact hw
  | _ => exact ruled_earlier (by decide)

theorem Ranked.both (h : w.Ranked c) (hboth : w.Meets c .bothConverged) :
    w.search.verdict = .bothConverged := by
  rcases h _ hboth with hplace | ⟨-, hv, -⟩
  · generalize w.search.verdict = v at hplace
    cases v with
    | bothConverged => rfl
    | _ => exact absurd hplace (by decide)
  · cases hv

end Pass

theorem Search.ruled_entry [Scalar α] (c : Config α) {e : Search α p} (hv : e.verdict ≠ .probe) :
    Pass.Ruled c e.verdict.entry e.pass := by
  cases he : e.verdict
  case probe => exact absurd he hv
  case badInput => exact .inl (.inr he)
  all_goals trivial

/-- A verdict that ends a fit is the first in place of those that are due for the trial that was
tested, whatever the numbers are and whatever the assessment is entered with. The exception is
that a long step which gains next to nothing is looked at before the objective is. -/
theorem assess_precedence [Scalar α] (c : Config α) {e : Search α p} (hv : e.verdict ≠ .probe) :
    let last := Pass.run c e.verdict Node.longest e.verdict.entry e.pass
    let w := last.2
    assess c e = w.search ∧
    (w.search.verdict.Final → w.Ranked c) ∧
    (last.1 = .done → ¬w.Untested →
      w.Ranked c ∧ (w.Meets c .bothConverged → w.search.verdict = .bothConverged)) := by
  intro last w
  have hruled : Pass.Ruled c last.1 w :=
    Pass.run_invariant Pass.ruled_transition Node.longest (Search.ruled_entry c hv)
  have hranked (hdone : last.1 = .done) (htested : ¬w.Untested) : w.Ranked c := by
    rw [hdone] at hruled
    exact hruled.resolve_left htested
  refine ⟨rfl, fun hfinal => ?_, fun hdone htested => ?_⟩
  · rcases e.leads c with hdone | hendless
    · refine hranked hdone ?_
      rintro (⟨hrecompute, -⟩ | hbad)
      · rw [hrecompute] at hfinal
        exact hfinal
      · rw [hbad] at hfinal
        exact hfinal
    · exact absurd hendless.1 (Nat.not_le.mpr hfinal.lt_code)
  · exact ⟨hranked hdone htested, (hranked hdone htested).both⟩

theorem Pass.run_next [Scalar α] {c : Config α} {v : Verdict} {node node' : Node}
    {w w' : Pass α p} (h : w.transition c v node = (node', w')) (k : Nat) (hnode : node ≠ .done) :
    Pass.run c v (k + 1) node w = Pass.run c v k node' w' := by
  rw [Pass.run, if_neg hnode, h]

/-- Nearly any objective is small enough, and the largest radius is not large. -/
noncomputable def Config.content : Config ℝ :=
  { Config.default with absFuncTol := 10, initialTrustRadius := 1 }

/-- A trial that is longer than that radius, and gains next to nothing. -/
noncomputable def Search.longTrial : Search ℝ 1 where
  verdict := .accept
  iterate := ⟨.replicate 1 1, .replicate 1 0, 1 - 1 / 10 ^ 12, 1, .replicate 1 1, 1,
    .gaussNewton, 1, false⟩
  trial := ⟨.replicate 1 1, 2, -(2 / 10 ^ 12), 1 / 10 ^ 12, 0, 1, -1⟩
  record := .new 1

theorem Search.longTrial_tested : ∃ w : Pass ℝ 1,
    (∀ k, Pass.run .content .accept (k + 7) .beginIteration longTrial.pass =
      Pass.run .content .accept k .convergenceTests w) ∧
    w.search.iterate = longTrial.iterate ∧ w.search.trial = longTrial.trial ∧
    w.search.record.decrease = 1 - (1 - 1 / 10 ^ 12) := by
  have hnontrivial : (1 : ℝ) / 10000 * (1 / 10 ^ 12) < 1 - (1 - 1 / 10 ^ 12) := by norm_num
  have hgood : (1 : ℝ) / 10 ^ 12 * (1 / 10) < 1 - (1 - 1 / 10 ^ 12) := by norm_num
  have hkeeps : (1 : ℝ) - (1 - 1 / 10 ^ 12) < -(3 / 4) * -(2 / 10 ^ 12) := by norm_num
  let begun := (longTrial.pass.beginIteration .accept).2
  let moved := begun.measureStep.2
  let known := (moved.classifyDecrease .content).2
  let gained := (known.nontrivialDecrease .content).2
  have hgained : gained.search.iterate = longTrial.iterate ∧
      gained.search.trial = longTrial.trial ∧
      gained.search.record.decrease = 1 - (1 - 1 / 10 ^ 12) := by
    have hsecond : gained = _ := congrArg Prod.snd (if_pos hgood)
    rw [hsecond]
    exact ⟨rfl, rfl, rfl⟩
  have hbegin : longTrial.pass.transition .content .accept .beginIteration =
      (.measureStep, begun) := rfl
  have hmeasure : begun.transition .content .accept .measureStep = (.classifyDecrease, moved) := rfl
  have hclassify : moved.transition .content .accept .classifyDecrease =
      (.nontrivialDecrease, known) := congrArg (·, known) (if_pos hnontrivial)
  have hgain : known.transition .content .accept .nontrivialDecrease = (.goodDecrease, gained) :=
    (if_pos hgood).trans (Prod.ext rfl (congrArg Prod.snd (if_pos hgood)).symm)
  have hkeep : gained.transition .content .accept .goodDecrease = (.keepRadius, gained) := by
    rw [Pass.transition, Pass.goodDecrease, hgained.2.1, hgained.2.2]
    exact if_pos hkeeps
  have hrule : gained.transition .content .accept .keepRadius =
      (.recordCode, gained.keepRadius.2) := rfl
  have hrecord : gained.keepRadius.2.transition .content .accept .recordCode =
      (.convergenceTests, gained.keepRadius.2.recordCode.2) := rfl
  refine ⟨gained.keepRadius.2.recordCode.2, fun k => ?_, hgained⟩
  rw [Pass.run_next hbegin, Pass.run_next hmeasure, Pass.run_next hclassify, Pass.run_next hgain,
    Pass.run_next hkeep, Pass.run_next hrule, Pass.run_next hrecord]
  all_goals decide

/-- The exception: the verdict is singular convergence where the objective is small enough. -/
theorem assess_precedence_longTrial :
    let e : Search ℝ 1 := .longTrial
    let w := (Pass.run .content e.verdict Node.longest e.verdict.entry e.pass).2
    (assess .content e).verdict = .singularConverged ∧ w.Ranked .content ∧
      w.Meets .content .absFuncConverged := by
  intro e w
  obtain ⟨tested, hrun, hiterate, htrial, hdecrease⟩ := Search.longTrial_tested
  have hunknown : ¬0 ≤ tested.search.trial.newtonLength := by
    rw [htrial]
    norm_num [Search.longTrial]
  have hsettles : ¬tested.Settles .content := fun h => hunknown h.1
  have hexhausts : ¬tested.Exhausts .content := fun h => hunknown h.1
  have hflat : tested.Flat .content := by
    rw [Pass.Flat, htrial, hiterate, abs_eq]
    norm_num [Search.longTrial, Config.content, Config.default]
  have htrusted : tested.Trusted := by
    rw [Pass.Trusted, htrial, hdecrease]
    norm_num [Search.longTrial]
  have htests : ∃ threshold, tested.transition .content .accept .convergenceTests =
      (.singularScreen, { tested with threshold }.rule .singularConverged) := by
    rw [Pass.transition, Pass.convergenceTests, if_neg htrusted, Pass.smallPrediction_eq,
      if_neg hsettles, if_neg hexhausts, if_pos hflat]
    exact ⟨_, rfl⟩
  obtain ⟨threshold, htests⟩ := htests
  have hfinal : 5 < Verdict.singularConverged.code ∧
      Verdict.singularConverged ≠ .falseConverged := by decide
  have hscreen : ({ tested with threshold }.rule .singularConverged).transition .content .accept
      .singularScreen = (.done, { tested with threshold }.rule .singularConverged) := by
    rw [Pass.transition, Pass.singularScreen]
    exact if_pos hfinal
  have hends : Pass.run .content .accept Node.longest .beginIteration e.pass =
      (.done, { tested with threshold }.rule .singularConverged) := by
    change Pass.run .content .accept (14 + 7) .beginIteration e.pass = _
    rw [hrun, Pass.run_next htests _ (by decide), Pass.run_next hscreen _ (by decide), Pass.run,
      if_pos rfl]
  obtain ⟨-, hranked, -⟩ := assess_precedence .content (show e.verdict ≠ .probe by decide)
  have hw : w = _ := congrArg Prod.snd hends
  refine ⟨congrArg (fun w => w.2.search.verdict) hends, hranked ?_, ?_⟩
  · change w.search.verdict.Final
    rw [hw]
    trivial
  · rw [hw]
    change |tested.search.iterate.f| < 10
    rw [hiterate]
    norm_num [Search.longTrial, abs_lt]

end LeastSquares
