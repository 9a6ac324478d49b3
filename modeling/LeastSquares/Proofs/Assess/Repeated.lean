import LeastSquares.Proofs.Assess.Depth
import LeastSquares.Proofs.Assess.Precedence

namespace LeastSquares

variable {α : Type} {p : Nat}

def Verdict.Accepts (v : Verdict) : Prop := v = .acceptByGradient ∨ v = .accept

instance (v : Verdict) : Decidable v.Accepts := inferInstanceAs (Decidable (_ ∨ _))

theorem Verdict.Final.not_accepts {v : Verdict} (h : v.Final) : ¬v.Accepts := by
  rintro (rfl | rfl)
  · exact h
  · exact h

theorem Verdict.Accepts.entry_eq {v : Verdict} (h : v.Accepts) : v.entry = .beginIteration := by
  cases h with
  | inl h => rw [h]; rfl
  | inr h => rw [h]; rfl

namespace Pass

/-- From here on the trial is accepted as `q` says it is, or not at all. -/
def Withholds (q : Search α p → Prop) : Node → Pass α p → Prop
  | .shrink, _ | .trivialDecrease, _ => True
  | .falseConvergenceTest, w => ¬w.search.record.resume.Accepts
  | .fletcherRadius, w | .saveBest, w | .recordCode, w => ¬w.search.verdict.Accepts
  | .convergenceTests, w | .singularScreen, w | .singularStepLength, w | .requestProbe, w
  | .singularTest, w | .done, w => w.search.verdict.Accepts → q w.search
  | _, _ => False

variable {q : Search α p → Prop} {w : Pass α p}

theorem Withholds.rule {v : Verdict} (hw : w.search.verdict.Accepts → q w.search)
    (hv : w.search.verdict.Next v) : v.Accepts → q (w.rule v).search := by
  intro haccepts
  cases hv with
  | inl hfinal => exact absurd haccepts hfinal.1.not_accepts
  | inr hsame =>
    subst hsame
    exact hw haccepts

variable [Scalar α] {c : Config α} {entry : Verdict}

theorem withholds_transition {node : Node} (hw : Withholds q node w) :
    Withholds q (w.transition c entry node).1 (w.transition c entry node).2 := by
  cases node with
  | shrink => exact fun haccepts => absurd haccepts (by decide : ¬Verdict.recompute.Accepts)
  | trivialDecrease =>
    by_cases hlimit : w.search.iterate.stageLimit ≤ w.search.record.stage
    · simp only [transition, trivialDecrease, if_pos hlimit]
      exact (by decide : ¬Verdict.recompute.Accepts)
    · simp only [transition, trivialDecrease, if_neg hlimit]
      exact (by decide : ¬Verdict.otherOrShorter.Accepts)
  | fletcherRadius => exact hw
  | falseConvergenceTest =>
    exact falseConvergenceTest_elim
      (fun _ haccepts => absurd haccepts (by decide : ¬Verdict.falseConverged.Accepts))
      (fun _ _ => hw) fun _ _ => hw
  | saveBest => exact hw
  | recordCode => exact fun haccepts => absurd haccepts hw
  | convergenceTests =>
    exact convergenceTests_elim (fun _ hv => Withholds.rule hw hv)
      fun _ _ hv => Withholds.rule hw hv
  | singularScreen => exact singularScreen_elim hw fun _ => hw
  | singularStepLength => exact singularStepLength_elim hw hw
  | requestProbe =>
    exact requestProbe_elim hw
      fun haccepts => absurd haccepts (by decide : ¬Verdict.probe.Accepts)
  | singularTest =>
    exact singularTest_elim
      (fun haccepts => absurd haccepts (by decide : ¬Verdict.singularConverged.Accepts)) hw
  | done => exact hw
  | _ => exact hw.elim

variable {k : Nat} {node : Node}

theorem Withholds.ends (hw : Withholds q node w) :
    (run c entry Node.longest node w).2.search.verdict.Accepts →
      q (run c entry Node.longest node w).2.search := by
  have hnode : ¬node.Stages := by
    cases node with
    | retryDecision | newModelTried | recomputedStep => exact hw.elim
    | _ => exact id
  have hdone : (run c entry Node.longest node w).1 = .done :=
    w.run_of_left_le c entry _ _ (Node.rank_le_longest _ _) (Node.countable_of_not_stages hnode)
  have hlast : Withholds q (run c entry Node.longest node w).1 _ :=
    run_invariant withholds_transition Node.longest hw
  rw [hdone] at hlast
  exact hlast

theorem run_move {node' : Node} {w' : Pass α p} (h : w.transition c entry node = (node', w'))
    (hnode : ¬node.Stages) (hne : node ≠ .done) :
    run c entry Node.longest node w = run c entry Node.longest node' w' := by
  obtain ⟨hlt, hcount⟩ := w.left_transition c entry node hne (Node.countable_of_not_stages hnode)
  rw [h] at hlt hcount
  have hlt : w'.left node' < w.left node := hlt
  have hleft : w.left node ≤ 15 := Node.rank_of_not_stages hnode
  have hdone := w'.run_of_left_le c entry 20 node' (by omega) hcount
  have hlast : run c entry (20 + 1) node' w' = run c entry 20 node' w' := by
    rw [run_add, hdone, run, if_pos rfl]
    exact Prod.ext hdone.symm rfl
  change run c entry (20 + 1) node w = run c entry (20 + 1) node' w'
  rw [run_next h 20 hne, hlast]

theorem transition_entry (hnode : node ≠ .beginIteration) (entry' : Verdict) :
    w.transition c entry node = w.transition c entry' node := by
  cases node with
  | beginIteration => exact absurd rfl hnode
  | _ => rfl

theorem run_entry (hleft : w.left node < 13) (entry' : Verdict) :
    run c entry k node w = run c entry' k node w := by
  have hbegin {node : Node} {w : Pass α p} (h : w.left node < 13) : node ≠ .beginIteration := by
    rintro rfl
    exact absurd h (by simp [left, Node.rank])
  have hcount {node : Node} {w : Pass α p} (h : w.left node < 13) : w.Countable node := by
    cases node with
    | retryDecision | newModelTried | recomputedStep =>
      simp only [left, Node.rank] at h
      split at h <;> omega
    | _ => trivial
  induction k generalizing node w with
  | zero => rfl
  | succ k ih =>
    rw [run, run]
    by_cases hne : node = .done
    · rw [if_pos hne, if_pos hne]
    · rw [if_neg hne, if_neg hne, transition_entry (hbegin hleft) entry']
      exact ih ((w.left_transition c entry' node hne (hcount hleft)).1.trans hleft)

end Pass

namespace Search

variable [Scalar α] (c : Config α) (e : Search α p)

def known : Pass α p where
  search := { e with record := { e.record with
    stage := 1
    growth := 0
    restored := false
    switched := false
    bestF := e.iterate.f₀
    decrease := e.iterate.f₀ - e.iterate.f } }
  relief := 1
  current := true
  change := relativeStep e.iterate.d e.iterate.x e.iterate.x₀
  threshold := 0

def gained : Pass α p :=
  e.known.note { e.known.search.record with bestLength := e.trial.length, change := e.known.change }

def widened : Pass α p :=
  let decrease := e.iterate.f₀ - e.iterate.f
  let slope := e.trial.slope
  (e.gained.note { e.gained.search.record with
    radiusFactor :=
      if decrease < (1 / 2 / c.radfacMax - 1) * slope then
        max c.increaseFactor (1 / 2 * slope / (slope + decrease))
      else c.radfacMax }).rule .accept

/-- A step that gains less than was foretold, of the last model there is to try. -/
def narrowed : Pass α p := ((e.gained.rule .accept).fletcherRadius c).2

/-- The ways to be accepted, by what is known of the trial when the tests for convergence begin. -/
inductive Granted : Pass α p → Prop
  | kept (hgood : e.trial.reduction * c.tuner1 < e.iterate.f₀ - e.iterate.f)
      (hkeeps : e.iterate.f₀ - e.iterate.f < -c.tuner3 * e.trial.slope) :
      Granted e.gained.keepRadius.2.recordCode.2
  | widened (hgood : e.trial.reduction * c.tuner1 < e.iterate.f₀ - e.iterate.f)
      (hgrows : ¬e.iterate.f₀ - e.iterate.f < -c.tuner3 * e.trial.slope)
      (hnewton : (e.trial.parameter == 0) = true) : Granted (e.widened c).recordCode.2
  | saved (hpoor : ¬e.trial.reduction * c.tuner1 < e.iterate.f₀ - e.iterate.f)
      (hlast : ¬1 < e.iterate.stageLimit) (hmoves : ¬e.known.change ≤ c.falseConvergeTol)
      (hfalls : e.iterate.f < e.iterate.f₀) : Granted (e.narrowed c).saveBest.2.recordCode.2
  | unsaved (hpoor : ¬e.trial.reduction * c.tuner1 < e.iterate.f₀ - e.iterate.f)
      (hlast : ¬1 < e.iterate.stageLimit) (hmoves : ¬e.known.change ≤ c.falseConvergeTol)
      (hrises : ¬e.iterate.f < e.iterate.f₀) : Granted (e.narrowed c).recordCode.2

variable {c e} {w : Pass α p}

theorem Granted.again (h : e.Granted c w) : w.search.Granted c w := by
  cases h with
  | kept hgood hkeeps => exact .kept hgood hkeeps
  | widened hgood hgrows hnewton => exact .widened hgood hgrows hnewton
  | saved hpoor hlast hmoves hfalls => exact .saved hpoor hlast hmoves hfalls
  | unsaved hpoor hlast hmoves hrises => exact .unsaved hpoor hlast hmoves hrises

theorem Granted.iterate_eq (h : e.Granted c w) : w.search.iterate = e.iterate := by
  cases h <;> rfl

theorem Granted.trial_eq (h : e.Granted c w) : w.search.trial = e.trial := by
  cases h <;> rfl

theorem run_known (hv : e.verdict.Accepts) (hfits : ¬e.iterate.oversized = true) :
    Pass.run c e.verdict Node.longest e.verdict.entry e.pass =
      Pass.run c e.verdict Node.longest
        (if c.tuner2 * e.trial.reduction < e.iterate.f₀ - e.iterate.f then .nontrivialDecrease
          else .trivialDecrease) e.known := by
  let begun := e.pass.note { e.pass.search.record with
    stage := 1, growth := 0, bestF := e.iterate.f₀ }
  have hbegin : e.pass.transition c e.verdict .beginIteration = (.measureStep, begun) :=
    if_neg hfits
  have hmeasure : begun.transition c e.verdict .measureStep =
      (.classifyDecrease, begun.measureStep.2) := rfl
  have hclassify : begun.measureStep.2.transition c e.verdict .classifyDecrease =
      (_, e.known) := rfl
  rw [hv.entry_eq, Pass.run_move hbegin id (by decide), Pass.run_move hmeasure id (by decide),
    Pass.run_move hclassify id (by decide)]
  rfl

variable {entry : Verdict}

theorem gained_fresh :
    ¬(e.gained.search.record.growth < 0 ∨ e.gained.search.record.restored = true) := by
  simp [gained, known, Pass.note]

theorem run_poor (hpoor : ¬e.trial.reduction * c.tuner1 < e.iterate.f₀ - e.iterate.f)
    (hlast : ¬1 < e.iterate.stageLimit) :
    Pass.run c entry Node.longest .nontrivialDecrease e.known =
      Pass.run c entry Node.longest .falseConvergenceTest (e.narrowed c) := by
  have hmove : e.known.transition c entry .nontrivialDecrease =
      (.fletcherRadius, e.gained.rule .accept) := (if_neg hpoor).trans (if_neg hlast)
  have hfletcher : (e.gained.rule .accept).transition c entry .fletcherRadius =
      (.falseConvergenceTest, e.narrowed c) := rfl
  rw [Pass.run_move hmove id (by decide), Pass.run_move hfletcher id (by decide)]

theorem run_good (hgood : e.trial.reduction * c.tuner1 < e.iterate.f₀ - e.iterate.f) :
    Pass.run c entry Node.longest .nontrivialDecrease e.known =
      Pass.run c entry Node.longest .goodDecrease e.gained := by
  have hmove : e.known.transition c entry .nontrivialDecrease = (.goodDecrease, e.gained) :=
    if_pos hgood
  exact Pass.run_move hmove id (by decide)

theorem run_recordCode : Pass.run c entry Node.longest .recordCode w =
    Pass.run c entry Node.longest .convergenceTests w.recordCode.2 :=
  Pass.run_move rfl id (by decide)

theorem Granted.run (h : e.Granted c w) :
    Pass.run c entry Node.longest .nontrivialDecrease e.known =
      Pass.run c entry Node.longest .convergenceTests w := by
  cases h with
  | kept hgood hkeeps =>
    have hmove : e.gained.transition c entry .goodDecrease = (.keepRadius, e.gained) :=
      if_pos hkeeps
    have hrule : e.gained.transition c entry .keepRadius = (.recordCode, e.gained.keepRadius.2) :=
      rfl
    rw [run_good hgood, Pass.run_move hmove id (by decide), Pass.run_move hrule id (by decide),
      run_recordCode]
  | widened hgood hgrows hnewton =>
    have hmove : e.gained.transition c entry .goodDecrease = (.recordCode, e.widened c) :=
      (if_neg hgrows).trans ((if_neg gained_fresh).trans (if_pos hnewton))
    rw [run_good hgood, Pass.run_move hmove id (by decide), run_recordCode]
  | saved hpoor hlast hmoves hfalls =>
    have hmove : (e.narrowed c).transition c entry .falseConvergenceTest =
        (.saveBest, e.narrowed c) :=
      (if_neg hmoves).trans (congrArg (·, e.narrowed c) (if_pos hfalls))
    have hsave : (e.narrowed c).transition c entry .saveBest =
        (.recordCode, (e.narrowed c).saveBest.2) := rfl
    rw [run_poor hpoor hlast, Pass.run_move hmove id (by decide),
      Pass.run_move hsave id (by decide), run_recordCode]
  | unsaved hpoor hlast hmoves hrises =>
    have hmove : (e.narrowed c).transition c entry .falseConvergenceTest =
        (.recordCode, e.narrowed c) :=
      (if_neg hmoves).trans (congrArg (·, e.narrowed c) (if_neg hrises))
    rw [run_poor hpoor hlast, Pass.run_move hmove id (by decide), run_recordCode]

theorem granted_of_accepts
    (h : (Pass.run c entry Node.longest .nontrivialDecrease e.known).2.search.verdict.Accepts) :
    ∃ w, e.Granted c w := by
  by_contra hno
  have hrefuse {node : Node} {w : Pass α p} (hw : Pass.Withholds (fun _ => False) node w)
      (hrun : Pass.run c entry Node.longest .nontrivialDecrease e.known =
        Pass.run c entry Node.longest node w) : False := by
    rw [hrun] at h
    exact hw.ends h
  by_cases hgood : e.trial.reduction * c.tuner1 < e.iterate.f₀ - e.iterate.f
  · by_cases hkeeps : e.iterate.f₀ - e.iterate.f < -c.tuner3 * e.trial.slope
    · exact hno ⟨_, .kept hgood hkeeps⟩
    by_cases hnewton : (e.trial.parameter == 0) = true
    · exact hno ⟨_, .widened hgood hkeeps hnewton⟩
    have hmove : e.gained.transition c entry .goodDecrease = (.saveBest, _) :=
      (if_neg hkeeps).trans ((if_neg gained_fresh).trans (if_neg hnewton))
    refine hrefuse ?_ ((run_good hgood).trans (Pass.run_move hmove id (by decide)))
    exact (by decide : ¬Verdict.recompute.Accepts)
  by_cases hlast : 1 < e.iterate.stageLimit
  · have hmove : e.known.transition c entry .nontrivialDecrease =
        (.saveBest, e.gained.rule .otherOrAccept) := (if_neg hgood).trans (if_pos hlast)
    refine hrefuse ?_ (Pass.run_move hmove id (by decide))
    exact (by decide : ¬Verdict.otherOrAccept.Accepts)
  by_cases hmoves : e.known.change ≤ c.falseConvergeTol
  · have hmove : (e.narrowed c).transition c entry .falseConvergenceTest =
        (.convergenceTests, (e.narrowed c).rule .falseConverged) := if_pos hmoves
    refine hrefuse ?_ ((run_poor hgood hlast).trans (Pass.run_move hmove id (by decide)))
    exact (by decide : ¬Verdict.falseConverged.Accepts)
  by_cases hfalls : e.iterate.f < e.iterate.f₀
  · exact hno ⟨_, .saved hgood hlast hmoves hfalls⟩
  · exact hno ⟨_, .unsaved hgood hlast hmoves hfalls⟩

theorem gains_of_accepts (hv : e.verdict.Accepts) (hs : (assess c e).verdict.Accepts) :
    ¬e.iterate.oversized = true ∧ c.tuner2 * e.trial.reduction < e.iterate.f₀ - e.iterate.f := by
  have hrefuse (node : Node) (w : Pass α p) (hw : Pass.Withholds (fun _ => False) node w)
      (hrun : Pass.run c e.verdict Node.longest e.verdict.entry e.pass =
        Pass.run c e.verdict Node.longest node w) : False := by
    rw [assess, hrun] at hs
    exact hw.ends hs
  have hfits : ¬e.iterate.oversized = true := by
    intro hover
    have hshrinks : ∃ w, e.pass.transition c e.verdict .beginIteration = (.shrink, w) :=
      ⟨_, if_pos hover⟩
    obtain ⟨w, hmove⟩ := hshrinks
    refine hrefuse .shrink w trivial ?_
    rw [hv.entry_eq, Pass.run_move hmove id (by decide)]
  refine ⟨hfits, ?_⟩
  by_contra hgain
  refine hrefuse .trivialDecrease e.known trivial ?_
  rw [run_known hv hfits, if_neg hgain]

theorem assess_eq_run (hv : e.verdict.Accepts) (hfits : ¬e.iterate.oversized = true)
    (hgain : c.tuner2 * e.trial.reduction < e.iterate.f₀ - e.iterate.f) :
    assess c e = (Pass.run c e.verdict Node.longest .nontrivialDecrease e.known).2.search := by
  rw [assess, run_known hv hfits, if_pos hgain]

end Search

/-- To assess what has been accepted once more changes nothing: after an acceptance the
assessment has come to rest. -/
theorem assess_accepted [Scalar α] (c : Config α) {e : Search α p}
    (he : e.verdict = .acceptByGradient ∨ e.verdict = .accept)
    (hs : (assess c e).verdict = .acceptByGradient ∨ (assess c e).verdict = .accept) :
    assess c (assess c e) = assess c e := by
  obtain ⟨hfits, hgain⟩ := Search.gains_of_accepts he hs
  have hrun := Search.assess_eq_run he hfits hgain
  obtain ⟨w, hw⟩ := Search.granted_of_accepts (hrun ▸ hs)
  rw [hw.run] at hrun
  have hkept : assess c e = w.search := by
    rw [hrun]
    have hends : Pass.Withholds (· = w.search) .convergenceTests w := fun _ => rfl
    apply hends.ends
    rw [← hrun]
    exact hs
  have hagain : (assess c e).Granted c w := by
    rw [hkept]
    exact hw.again
  have hgains : ¬(assess c e).iterate.oversized = true ∧ c.tuner2 * (assess c e).trial.reduction <
      (assess c e).iterate.f₀ - (assess c e).iterate.f := by
    rw [hkept, hw.iterate_eq, hw.trial_eq]
    exact ⟨hfits, hgain⟩
  have hrun' := Search.assess_eq_run hs hgains.1 hgains.2
  rw [hagain.run] at hrun'
  have hleft : w.left .convergenceTests < 13 := by simp [Pass.left, Node.rank]
  rw [hrun', hrun, Pass.run_entry hleft e.verdict]

def Search.halving : Search Float 1 where
  verdict := .accept
  iterate := ⟨.replicate 1 1.25, .replicate 1 1, 5, 10, .replicate 1 1, 1, .gaussNewton, 2, false⟩
  trial := ⟨.replicate 1 0.25, 0.25, -8, 6, 12, 0.5, 0.5⟩
  record := { Record.new 1 with stage := 7, growth := 3, bestF := -1, decrease := 1 / 0 }

/-- The assessment is entered with one of the two verdicts and left with the other. -/
theorem assess_accepted_halving :
    let c : Config Float := .default
    let e : Search Float 1 := .halving
    e.verdict = .accept ∧ (assess c e).verdict = .acceptByGradient ∧
      assess c (assess c e) = assess c e := by
  intro c e
  have hs : (assess c e).verdict = .acceptByGradient := by decide +kernel
  exact ⟨rfl, hs, assess_accepted c (.inr rfl) (.inl hs)⟩

end LeastSquares
