import LeastSquares.Proofs.Assess.Probe
import LeastSquares.Proofs.Ordered

namespace LeastSquares

variable {α : Type} {p : Nat}

namespace Verdict

/-- The verdicts a trial can be given at this stage and still be computed again. -/
def Due (v : Verdict) (stage : Int32) : Prop :=
  stage = 1 ∧ (v = .recompute ∨ v = .acceptByGradient ∨ v = .accept) ∨
  stage = 2 ∧ (v = .recompute ∨ v = .otherOrShorter ∨ v = .otherOrAccept) ∨
  stage = 3 ∧ v = .recompute

def Counts (v : Verdict) (stage : Int32) : Prop :=
  stage = 1 ∧ (v = .otherOrShorter ∨ v = .otherOrAccept) ∨ stage = 2 ∧ v = .recompute

variable {v : Verdict} {stage : Int32}

theorem Due.code_le (h : v.Due stage) : v.code ≤ 5 := by
  rcases h with ⟨-, rfl | rfl | rfl⟩ | ⟨-, rfl | rfl | rfl⟩ | ⟨-, rfl⟩ <;> decide

theorem Due.stage_eq (h : v.Due stage) : stage = 1 ∨ stage = 2 ∨ stage = 3 :=
  h.imp And.left (Or.imp And.left And.left)

theorem Counts.due (h : v.Counts stage) : v.Due (stage + 1) := by
  rcases h with ⟨rfl, hv⟩ | ⟨rfl, hv⟩
  · exact .inr (.inl ⟨by decide, .inr hv⟩)
  · exact .inr (.inr ⟨by decide, hv⟩)

theorem due_recompute (h : stage = 1 ∨ stage = 2 ∨ stage = 3) : recompute.Due stage := by
  rcases h with h | h | h
  · exact .inl ⟨h, .inl rfl⟩
  · exact .inr (.inl ⟨h, .inl rfl⟩)
  · exact .inr (.inr ⟨h, rfl⟩)

theorem Final.code_le (h : v.Final) : v.code ≤ 12 := by
  cases v <;> first | exact h.elim | decide

end Verdict

namespace Search

variable (e : Search α p)

def Measured : Prop := e.record.stage = 1 ∨ e.record.stage = 2 ∨ e.record.stage = 3

/-- The other model is asked for only by the first one, where there may be two. -/
def Admits (v : Verdict) : Prop :=
  v.code ≤ 5 ∧ (v = .otherOrShorter ∨ v = .otherOrAccept →
    e.record.stage = 1 ∧ e.iterate.stageLimit = 2)

/-- What an assessment can be entered with, whatever the numbers are. -/
structure Timely : Prop where
  limit : e.iterate.stageLimit = 1 ∨ e.iterate.stageLimit = 2
  resume : e.record.resume.code ≤ 5
  entry : match e.verdict with
    | .acceptByGradient | .accept => True
    | .otherOrShorter | .otherOrAccept => e.record.stage = 1 ∧ e.iterate.stageLimit = 2
    | .recompute => e.Measured ∨ e.record.resume.Due (-e.record.stage)
    | .probe => e.Measured ∧ e.Admits e.record.resume
    | _ => False

/-- What an assessment can answer, whatever the numbers are. -/
structure Answered : Prop where
  limit : e.iterate.stageLimit = 1 ∨ e.iterate.stageLimit = 2
  resume : e.record.resume.code ≤ 5
  answer : e.verdict = .recompute ∧ e.record.resume.Due (-e.record.stage) ∨
    e.Measured ∧ (e.verdict.Final ∨ e.Admits e.verdict ∨
      e.verdict = .probe ∧ e.Admits e.record.resume)

variable {e} {s : Search α p} {v : Verdict}

theorem Admits.congr (h : e.Admits v) (hstage : s.record.stage = e.record.stage)
    (hlimit : s.iterate.stageLimit = e.iterate.stageLimit) : s.Admits v := by
  refine ⟨h.1, fun hv => ?_⟩
  rw [hstage, hlimit]
  exact h.2 hv

theorem Admits.of_eq {u : Verdict} (h : e.Admits v) (hu : u = v) : e.Admits u := hu ▸ h

theorem admits_recompute : e.Admits .recompute := ⟨by decide, nofun⟩

theorem admits_accept : e.Admits .accept := ⟨by decide, nofun⟩

theorem admits_acceptByGradient : e.Admits .acceptByGradient := ⟨by decide, nofun⟩

theorem admits_other (h : e.record.stage = 1 ∧ e.iterate.stageLimit = 2)
    (hv : v = .otherOrShorter ∨ v = .otherOrAccept) : e.Admits v := by
  refine ⟨?_, fun _ => h⟩
  rcases hv with rfl | rfl <;> decide

theorem Timely.code_le (h : e.Timely) : e.verdict.code ≤ 6 := by
  have hentry := h.entry
  cases hv : e.verdict <;> rw [hv] at hentry <;> first | exact hentry.elim | decide

theorem Answered.code_le (h : e.Answered) : e.verdict.code ≤ 12 := by
  rcases h.answer with ⟨hv, -⟩ | ⟨-, hfinal | ⟨hcode, -⟩ | ⟨hv, -⟩⟩
  · rw [hv]
    decide
  · exact hfinal.code_le
  · exact Nat.le_trans hcode (by decide)
  · rw [hv]
    decide

theorem Timely.countable [Scalar α] (h : e.Timely) : e.pass.Countable e.verdict.entry := by
  have hstage : e.pass.search.record.stage = e.record.stage := rfl
  rw [Pass.Countable, hstage]
  have hentry := h.entry
  cases hv : e.verdict <;> rw [hv] at hentry
  case otherOrShorter =>
    rw [hentry.1]
    exact ⟨by decide, by decide⟩
  case otherOrAccept =>
    rw [hentry.1]
    exact ⟨by decide, by decide⟩
  case recompute =>
    change -2147483647 < e.record.stage.toInt
    rcases hentry with (hk | hk | hk) | hdue
    · rw [hk]; decide
    · rw [hk]; decide
    · rw [hk]; decide
    · rcases hdue.stage_eq with hk | hk | hk <;> rw [← Int32.neg_neg (a := e.record.stage), hk] <;>
        decide
  all_goals trivial

end Search

namespace Pass

/-- What holds before each node of an assessment entered with `v`, whatever the numbers are. -/
structure Timed (v : Verdict) (node : Node) (w : Pass α p) : Prop where
  limit : w.search.iterate.stageLimit = 1 ∨ w.search.iterate.stageLimit = 2
  resume : w.search.record.resume.code ≤ 5
  place : match node with
    | .beginIteration => w.search.verdict = v ∧ (v = .acceptByGradient ∨ v = .accept)
    | .retryDecision | .newModelTried => w.search.verdict.Counts w.search.record.stage
    | .recomputedStep => w.search.verdict.Due w.search.record.stage ∨
        w.search.verdict = .recompute ∧ w.search.record.resume.Due (-w.search.record.stage)
    | .checkOversize => w.search.verdict.Due w.search.record.stage
    | .shrink => w.search.verdict.code ≤ 5 ∧ w.search.record.resume.Due (-w.search.record.stage)
    | .compareWithBest | .restoreBest | .measureStep | .classifyDecrease | .trivialDecrease
    | .nontrivialDecrease | .goodDecrease | .keepRadius =>
      w.search.verdict.code ≤ 5 ∧ w.search.Measured
    | .fletcherRadius | .saveBest | .recordCode =>
      w.search.Measured ∧ w.search.Admits w.search.verdict
    | .falseConvergenceTest => w.search.Measured ∧ w.search.Admits w.search.verdict ∧
        w.search.Admits w.search.record.resume
    | .convergenceTests | .singularStepLength | .requestProbe =>
      w.search.Measured ∧ w.search.Admits w.search.record.resume ∧
        (w.search.verdict = .falseConverged ∨ w.search.verdict = w.search.record.resume)
    | .singularScreen => w.search.Measured ∧ w.search.Admits w.search.record.resume ∧
        (w.search.verdict.Final ∨ w.search.verdict = w.search.record.resume)
    | .probed => w.search.verdict = .probe ∧ w.search.Measured ∧
        w.search.Admits w.search.record.resume
    | .singularTest => w.search.Measured ∧
        (w.search.verdict.Final ∨ w.search.Admits w.search.verdict)
    | .done => w.search.Answered
    | .resumeAfterConvergence => False

variable [Scalar α] {c : Config α} {v : Verdict} {w : Pass α p}

theorem timed_entry {e : Search α p} (he : e.Timely) : Timed e.verdict e.verdict.entry e.pass := by
  refine ⟨he.limit, he.resume, ?_⟩
  have hentry := he.entry
  have hverdict : e.pass.search.verdict = e.verdict := rfl
  cases hv : e.verdict <;> rw [hv] at hentry hverdict
  case otherOrShorter =>
    change e.verdict.Counts e.record.stage
    rw [hv]
    exact .inl ⟨hentry.1, .inl rfl⟩
  case otherOrAccept =>
    change e.verdict.Counts e.record.stage
    rw [hv]
    exact .inl ⟨hentry.1, .inr rfl⟩
  case acceptByGradient => exact ⟨hverdict, .inl rfl⟩
  case accept => exact ⟨hverdict, .inr rfl⟩
  case recompute =>
    change e.verdict.Due e.record.stage ∨ _
    rw [hv]
    exact hentry.imp Verdict.due_recompute fun h => ⟨hverdict, h⟩
  case probe => exact ⟨hverdict, hentry.1, hentry.2.congr rfl rfl⟩
  all_goals exact hentry.elim

omit [Scalar α] in
theorem timed_beginIteration (hw : Timed v .beginIteration w) :
    Timed v (w.beginIteration v).1 (w.beginIteration v).2 := by
  obtain ⟨hlimit, hresume, hverdict, hv⟩ := hw
  have hcode : v.code ≤ 5 := by
    rcases hv with rfl | rfl <;> decide
  have hcode' : w.search.verdict.code ≤ 5 := hverdict ▸ hcode
  have hone : -(-1 : Int32) = 1 := by decide
  refine beginIteration_elim (fun _ => ?_) fun _ => ?_
  · exact ⟨hlimit, hcode, hcode', .inl ⟨hone, .inr hv⟩⟩
  · exact ⟨hlimit, hresume, hcode', .inl rfl⟩

omit [Scalar α] in
theorem timed_retryDecision (hw : Timed v .retryDecision w) :
    Timed v w.retryDecision.1 w.retryDecision.2 := by
  obtain ⟨hlimit, hresume, hcounts⟩ := hw
  refine retryDecision_elim (fun _ => ?_) fun _ => ?_
  · exact ⟨hlimit, hresume, hcounts⟩
  · exact ⟨hlimit, hresume, hcounts.due.code_le, hlimit.imp_right .inl⟩

omit [Scalar α] in
theorem timed_resumed (hlimit : w.search.iterate.stageLimit = 1 ∨ w.search.iterate.stageLimit = 2)
    (hover : ¬w.search.iterate.oversized = true) (hverdict : w.search.verdict = .recompute)
    (hdue : w.search.record.resume.Due (-w.search.record.stage)) :
    Timed v w.recomputedStep.1 w.recomputedStep.2 := by
  have hcode : w.search.verdict.code ≤ 5 := by
    rw [hverdict]
    decide
  have hneg : ¬0 < w.search.record.stage := by
    rw [← Int32.neg_neg (a := w.search.record.stage)]
    rcases hdue.stage_eq with hk | hk | hk <;> rw [hk] <;> decide
  have hstep (v : Verdict) (hv : w.search.record.resume = v) :=
    recomputedStep_resumed hneg hover v hv
  have hresume := hdue.code_le
  rcases hdue with ⟨hk, hv | hv | hv⟩ | ⟨hk, hv | hv | hv⟩ | ⟨hk, hv⟩ <;> rw [hstep _ hv]
  · exact ⟨hlimit, hresume, hcode, .inl hk⟩
  · exact ⟨hlimit, hresume, hcode, .inl hk⟩
  · exact ⟨hlimit, hresume, hcode, .inl hk⟩
  · exact ⟨hlimit, hresume, hcode, .inr (.inl hk)⟩
  · exact ⟨hlimit, hresume, .inr ⟨hk, hverdict⟩⟩
  · exact ⟨hlimit, hresume, .inr ⟨hk, hverdict⟩⟩
  · exact ⟨hlimit, hresume, hcode, .inr (.inr hk)⟩

omit [Scalar α] in
theorem timed_recomputedStep (hw : Timed v .recomputedStep w) :
    Timed v w.recomputedStep.1 w.recomputedStep.2 := by
  obtain ⟨hlimit, hresume, hdue | ⟨hverdict, hdue⟩⟩ := hw
  · have hpos : 0 < w.search.record.stage := by
      rcases hdue.stage_eq with hk | hk | hk <;> rw [hk] <;> decide
    unfold recomputedStep
    rw [if_pos hpos]
    exact ⟨hlimit, hresume, hdue⟩
  · by_cases hover : w.search.iterate.oversized = true
    · have hneg : ¬0 < w.search.record.stage := by
        rw [← Int32.neg_neg (a := w.search.record.stage)]
        rcases hdue.stage_eq with hk | hk | hk <;> rw [hk] <;> decide
      unfold recomputedStep
      rw [if_neg hneg, if_pos hover]
      exact ⟨hlimit, hresume, hverdict ▸ by decide, hdue⟩
    · exact timed_resumed hlimit hover hverdict hdue

omit [Scalar α] in
theorem timed_checkOversize (hw : Timed v .checkOversize w) :
    Timed v w.checkOversize.1 w.checkOversize.2 := by
  obtain ⟨hlimit, hresume, hdue⟩ := hw
  refine checkOversize_elim (fun _ => ?_) (fun _ _ => ?_) fun _ _ => ?_
  · exact ⟨hlimit, hresume, hdue.code_le, hdue.stage_eq⟩
  · exact ⟨hlimit, hresume, hdue.code_le, hdue.stage_eq⟩
  · refine ⟨hlimit, hdue.code_le, hdue.code_le, ?_⟩
    dsimp only [note]
    rw [Int32.neg_neg]
    exact hdue

theorem timed_compareWithBest (hw : Timed v .compareWithBest w) :
    Timed v w.compareWithBest.1 w.compareWithBest.2 := by
  obtain ⟨hlimit, hresume, hplace⟩ := hw
  refine compareWithBest_elim (fun _ => ?_) (fun _ _ => ?_) fun _ _ => ?_
  · exact ⟨hlimit, hresume, hplace⟩
  · exact ⟨hlimit, hresume, hplace⟩
  · exact ⟨hlimit, hresume, hplace⟩

theorem stage_eq_one {k limit : Int32} (hk : k = 1 ∨ k = 2 ∨ k = 3) (hlimit : limit = 1 ∨ limit = 2)
    (h : k < limit) : k = 1 ∧ limit = 2 := by
  rcases hk with rfl | rfl | rfl <;> rcases hlimit with rfl | rfl
  · exact absurd h (by decide)
  · exact ⟨rfl, rfl⟩
  · exact absurd h (by decide)
  · exact absurd h (by decide)
  · exact absurd h (by decide)
  · exact absurd h (by decide)

theorem timed_trivialDecrease (hw : Timed v .trivialDecrease w) :
    Timed v w.trivialDecrease.1 w.trivialDecrease.2 := by
  obtain ⟨hlimit, hresume, hcode, hmeasured⟩ := hw
  unfold trivialDecrease
  dsimp only
  by_cases hle : w.search.iterate.stageLimit ≤ w.search.record.stage
  · simp only [if_pos hle]
    split <;> exact ⟨hlimit, hresume, hmeasured, Search.admits_recompute⟩
  · have hone := stage_eq_one hmeasured hlimit (Int32.not_le.mp hle)
    simp only [if_neg hle]
    split <;> exact ⟨hlimit, hresume, hmeasured, Search.admits_other hone (.inl rfl)⟩

theorem timed_nontrivialDecrease (hw : Timed v .nontrivialDecrease w) :
    Timed v (w.nontrivialDecrease c).1 (w.nontrivialDecrease c).2 := by
  obtain ⟨hlimit, hresume, hcode, hmeasured⟩ := hw
  refine nontrivialDecrease_elim ⟨hlimit, hresume, hcode, hmeasured⟩ (fun hlt => ?_)
    ⟨hlimit, hresume, hmeasured, Search.admits_accept⟩
  have hone := stage_eq_one hmeasured hlimit hlt
  exact ⟨hlimit, hresume, hmeasured, Search.admits_other hone (.inr rfl)⟩

theorem timed_goodDecrease (hw : Timed v .goodDecrease w) :
    Timed v (w.goodDecrease c).1 (w.goodDecrease c).2 := by
  obtain ⟨hlimit, hresume, hcode, hmeasured⟩ := hw
  exact goodDecrease_elim ⟨hlimit, hresume, hcode, hmeasured⟩
    (fun _ => ⟨hlimit, hresume, hmeasured, Search.admits_accept⟩)
    fun _ _ => ⟨hlimit, hresume, hmeasured, Search.admits_recompute⟩

theorem timed_falseConvergenceTest (hw : Timed v .falseConvergenceTest w) :
    Timed v (w.falseConvergenceTest c).1 (w.falseConvergenceTest c).2 := by
  obtain ⟨hlimit, hresume, hmeasured, -, hadmits⟩ := hw
  exact falseConvergenceTest_elim (fun _ => ⟨hlimit, hresume, hmeasured, hadmits, .inl rfl⟩)
    (fun _ _ => ⟨hlimit, hresume, hmeasured, hadmits⟩)
    fun _ _ => ⟨hlimit, hresume, hmeasured, hadmits⟩

theorem timed_convergenceTests (hw : Timed v .convergenceTests w) :
    Timed v (w.convergenceTests c).1 (w.convergenceTests c).2 := by
  obtain ⟨hlimit, hresume, hmeasured, hadmits, hv⟩ := hw
  have hfinal : w.search.verdict.Final ∨ w.search.verdict = w.search.record.resume := by
    refine hv.imp_left fun h => ?_
    rw [h]
    trivial
  have hu {u : Verdict} (hnext : w.search.verdict.Next u) :
      u.Final ∨ u = w.search.record.resume := by
    rcases hnext with ⟨hsmall, -⟩ | rfl
    · exact .inl hsmall
    · exact hfinal
  refine convergenceTests_elim (fun u hnext => ?_) fun u _ hnext => ?_
  · exact ⟨hlimit, hresume, hlimit, hresume,
      .inr ⟨hmeasured, (hu hnext).imp_right fun h => .inl (hadmits.of_eq h)⟩⟩
  · exact ⟨hlimit, hresume, hmeasured, hadmits, hu hnext⟩

theorem timed_singularScreen (hw : Timed v .singularScreen w) :
    Timed v (w.singularScreen c).1 (w.singularScreen c).2 := by
  obtain ⟨hlimit, hresume, hmeasured, hadmits, hv⟩ := hw
  have hdone : Timed v .done w :=
    ⟨hlimit, hresume, hlimit, hresume,
      .inr ⟨hmeasured, hv.imp_right fun h => .inl (hadmits.of_eq h)⟩⟩
  refine singularScreen_elim hdone fun hcode => ?_
  exact ⟨hlimit, hresume, hmeasured, hadmits, hv.imp_left fun h => h.eq_falseConverged hcode⟩

theorem timed_singularStepLength (hw : Timed v .singularStepLength w) :
    Timed v (w.singularStepLength c).1 (w.singularStepLength c).2 := by
  have hdone : Timed v .done w := by
    obtain ⟨hlimit, hresume, hmeasured, hadmits, hv⟩ := hw
    refine ⟨hlimit, hresume, hlimit, hresume, .inr ⟨hmeasured,
      hv.imp (fun h => ?_) fun h => .inl (hadmits.of_eq h)⟩⟩
    rw [h]
    trivial
  exact singularStepLength_elim hdone ⟨hw.limit, hw.resume, hw.place⟩

theorem timed_requestProbe (hw : Timed v .requestProbe w) :
    Timed v w.requestProbe.1 w.requestProbe.2 := by
  obtain ⟨hlimit, hresume, hmeasured, hadmits, hv⟩ := hw
  refine requestProbe_elim ⟨hlimit, hresume, hmeasured, hv.imp (fun h => ?_) hadmits.of_eq⟩
    ⟨hlimit, hresume, hlimit, hresume, .inr ⟨hmeasured, .inr (.inr ⟨rfl, hadmits⟩)⟩⟩
  rw [h]
  trivial

theorem timed_probed (hw : Timed v .probed w) : Timed v w.probed.1 w.probed.2 := by
  obtain ⟨hlimit, hresume, -, hmeasured, hadmits⟩ := hw
  unfold probed
  dsimp only
  split
  · exact ⟨hlimit, hresume, hmeasured, .inl trivial⟩
  · exact ⟨hlimit, hresume, hmeasured, .inr hadmits⟩

theorem timed_singularTest (hw : Timed v .singularTest w) :
    Timed v (w.singularTest c).1 (w.singularTest c).2 := by
  obtain ⟨hlimit, hresume, hmeasured, hv⟩ := hw
  exact singularTest_elim ⟨hlimit, hresume, hlimit, hresume, .inr ⟨hmeasured, .inl trivial⟩⟩
    ⟨hlimit, hresume, hlimit, hresume, .inr ⟨hmeasured, hv.imp_right .inl⟩⟩

theorem timed_transition {node : Node} (hw : Timed v node w) :
    Timed v (w.transition c v node).1 (w.transition c v node).2 := by
  have hlimit := hw.limit
  have hresume := hw.resume
  have hplace := hw.place
  cases node with
  | beginIteration => exact timed_beginIteration hw
  | retryDecision => exact timed_retryDecision hw
  | newModelTried => exact ⟨hlimit, hresume, .inl hplace.due⟩
  | recomputedStep => exact timed_recomputedStep hw
  | checkOversize => exact timed_checkOversize hw
  | shrink => exact ⟨hlimit, hresume, hlimit, hresume, .inl ⟨rfl, hplace.2⟩⟩
  | compareWithBest => exact timed_compareWithBest hw
  | restoreBest =>
    exact restoreBest_elim (fun _ => ⟨hlimit, hresume, hplace⟩) fun _ => ⟨hlimit, hresume, hplace⟩
  | measureStep =>
    exact measureStep_elim (fun _ => ⟨hlimit, hresume, hplace⟩) fun _ => ⟨hlimit, hresume, hplace⟩
  | classifyDecrease =>
    exact classifyDecrease_elim (fun _ => ⟨hlimit, hresume, hplace⟩)
      fun _ => ⟨hlimit, hresume, hplace⟩
  | trivialDecrease => exact timed_trivialDecrease hw
  | nontrivialDecrease => exact timed_nontrivialDecrease hw
  | fletcherRadius => exact ⟨hlimit, hplace.2.1, hplace.1, hplace.2, hplace.2⟩
  | falseConvergenceTest => exact timed_falseConvergenceTest hw
  | goodDecrease => exact timed_goodDecrease hw
  | saveBest => exact ⟨hlimit, hresume, hplace⟩
  | keepRadius => exact ⟨hlimit, hresume, hplace.2, Search.admits_acceptByGradient⟩
  | resumeAfterConvergence => exact hplace.elim
  | recordCode => exact ⟨hlimit, hplace.2.1, hplace.1, hplace.2, .inr rfl⟩
  | convergenceTests => exact timed_convergenceTests hw
  | singularScreen => exact timed_singularScreen hw
  | singularStepLength => exact timed_singularStepLength hw
  | requestProbe => exact timed_requestProbe hw
  | probed => exact timed_probed hw
  | singularTest => exact timed_singularTest hw
  | done => exact hw

omit [Scalar α] in
theorem Timed.code_le {node : Node} (hw : Timed v node w) : w.search.verdict.code ≤ 12 := by
  have hle {k : Nat} (h : k ≤ 5) : k ≤ 12 := Nat.le_trans h (by decide)
  have hresume := hle hw.resume
  have hplace := hw.place
  cases node with
  | beginIteration =>
    rw [hplace.1]
    rcases hplace.2 with rfl | rfl <;> decide
  | retryDecision | newModelTried => exact hle hplace.due.code_le
  | recomputedStep =>
    rcases hplace with hdue | ⟨hverdict, -⟩
    · exact hle hdue.code_le
    · rw [hverdict]
      decide
  | checkOversize => exact hle hplace.code_le
  | fletcherRadius | saveBest | recordCode => exact hle hplace.2.1
  | falseConvergenceTest => exact hle hplace.2.1.1
  | convergenceTests | singularStepLength | requestProbe =>
    rcases hplace.2.2 with hv | hv <;> rw [hv]
    · decide
    · exact hresume
  | singularScreen =>
    rcases hplace.2.2 with hv | hv
    · exact hv.code_le
    · rw [hv]
      exact hresume
  | probed =>
    rw [hplace.1]
    decide
  | singularTest =>
    rcases hplace.2 with hv | hv
    · exact hv.code_le
    · exact hle hv.1
  | done => exact hplace.code_le
  | resumeAfterConvergence => exact hplace.elim
  | _ => exact hle hplace.1

end Pass

namespace Search

variable [Scalar α] {c : Config α} {e s : Search α p}

/-- An assessment keeps to the protocol: it is entered where a trial or a probe was asked for,
resumes from no verdict but one on a trial, never finds what it cannot read, and ends. -/
structure Served (c : Config α) (e : Search α p) : Prop where
  entered : 1 ≤ e.verdict.code ∧ e.verdict.code ≤ 6
  resumed : ∀ k, (Pass.run c e.verdict k e.verdict.entry e.pass).2.search.record.resume.code ≤ 5
  read : ∀ k, (Pass.run c e.verdict k e.verdict.entry e.pass).2.search.verdict ≠ .badInput
  ends : (Pass.run c e.verdict Node.longest e.verdict.entry e.pass).1 = .done

theorem Timely.run_timed (he : e.Timely) (k : Nat) :
    Pass.Timed e.verdict (Pass.run c e.verdict k e.verdict.entry e.pass).1
      (Pass.run c e.verdict k e.verdict.entry e.pass).2 :=
  Pass.run_invariant Pass.timed_transition k (Pass.timed_entry he)

theorem Timely.ends (he : e.Timely) :
    (Pass.run c e.verdict Node.longest e.verdict.entry e.pass).1 = .done :=
  Pass.run_of_left_le e.pass c e.verdict Node.longest e.verdict.entry
    (Node.rank_le_longest _ _) he.countable

theorem Timely.served (he : e.Timely) : e.Served c := by
  refine ⟨⟨?_, he.code_le⟩, fun k => (he.run_timed k).resume, fun k hbad => ?_, he.ends⟩
  · cases e.verdict <;> decide
  · have hcode := (he.run_timed (c := c) k).code_le
    rw [hbad] at hcode
    exact absurd hcode (by decide)

theorem Timely.answered (he : e.Timely) : (assess c e).Answered := by
  have hrun := he.run_timed (c := c) Node.longest
  rw [he.ends] at hrun
  exact hrun.place

omit [Scalar α] in
theorem Answered.probe (hs : s.Answered) (hv : s.verdict = .probe) (t : Trial α p) :
    Timely { s with trial := t } := by
  refine ⟨hs.limit, hs.resume, ?_⟩
  dsimp only
  rw [hv]
  rcases hs.answer with ⟨h, -⟩ | ⟨hmeasured, hfinal | hadmits | ⟨-, hadmits⟩⟩
  · rw [hv] at h
    cases h
  · rw [hv] at hfinal
    exact hfinal.elim
  · exact absurd (hv ▸ hadmits.1) (by decide)
  · exact ⟨hmeasured, hadmits⟩

omit [Scalar α] in
theorem Answered.again (hs : s.Answered) (hv : s.verdict = .recompute) (radius : α) :
    Timely { s with iterate := { s.iterate with radius } } := by
  refine ⟨hs.limit, hs.resume, ?_⟩
  dsimp only
  rw [hv]
  rcases hs.answer with ⟨-, hdue⟩ | ⟨hmeasured, -⟩
  · exact .inr hdue
  · exact .inl hmeasured

omit [Scalar α] in
theorem Answered.other (hs : s.Answered)
    (hv : s.verdict = .otherOrShorter ∨ s.verdict = .otherOrAccept) (model : Model) :
    Timely { s with iterate := { s.iterate with model } } := by
  have hfirst : s.record.stage = 1 ∧ s.iterate.stageLimit = 2 := by
    rcases hs.answer with ⟨h, -⟩ | ⟨-, hfinal | hadmits | ⟨h, -⟩⟩
    · rw [h] at hv
      rcases hv with hv | hv <;> cases hv
    · rcases hv with hv | hv <;> rw [hv] at hfinal <;> exact hfinal.elim
    · exact hadmits.2 hv
    · rw [h] at hv
      rcases hv with hv | hv <;> cases hv
  refine ⟨hs.limit, hs.resume, ?_⟩
  dsimp only
  rcases hv with hv | hv <;> rw [hv] <;> exact hfirst

theorem Timely.probe_answer (he : e.Timely) (hv : e.verdict = .probe) :
    (assess c e).verdict.code ≤ 5 ∨ (assess c e).verdict = .singularConverged ∨
      (assess c e).verdict = .falseConverged := by
  obtain ⟨v, heq, hverdict⟩ := assess_probe c hv
  rw [heq]
  rcases hverdict with rfl | rfl
  · exact .inr (.inl rfl)
  · dsimp only
    split
    · exact .inr (.inr rfl)
    · exact .inl he.resume

end Search

section

variable [Scalar α]

/-- The objectives that an assessment compares are finite. -/
structure Search.Numeric (e : Search α p) : Prop where
  trial : Scalar.isFinite e.iterate.f = true
  start : Scalar.isFinite e.iterate.f₀ = true
  best : Scalar.isFinite e.record.bestF = true

theorem Pass.numeric_transition {c : Config α} {v : Verdict} {node : Node} {w : Pass α p}
    (hw : w.search.Numeric) : (w.transition c v node).2.search.Numeric := by
  obtain ⟨htrial, hstart, hbest⟩ := hw
  cases node with
  | beginIteration =>
    simp only [transition, beginIteration]
    split <;> exact ⟨htrial, hstart, hstart⟩
  | restoreBest =>
    simp only [transition, restoreBest]
    split
    · exact ⟨htrial, hstart, hbest⟩
    · exact ⟨hbest, hstart, hbest⟩
  | trivialDecrease =>
    simp only [transition, trivialDecrease]
    split <;> split <;>
      first | exact ⟨htrial, hstart, hbest⟩ | exact ⟨hstart, hstart, htrial⟩
  | saveBest => exact ⟨htrial, hstart, htrial⟩
  | _ =>
    simp only [transition, retryDecision, newModelTried, recomputedStep, checkOversize, shrink,
      compareWithBest, measureStep, classifyDecrease, nontrivialDecrease, fletcherRadius,
      falseConvergenceTest, goodDecrease, keepRadius, resumeAfterConvergence, recordCode,
      convergenceTests, singularScreen, singularStepLength, requestProbe, probed, singularTest]
    (repeat' split) <;> exact ⟨htrial, hstart, hbest⟩

theorem Search.Numeric.assess {c : Config α} {e : Search α p} (he : e.Numeric) :
    (assess c e).Numeric := by
  have hstep : ∀ {node : Node} {w : Pass α p}, w.search.Numeric →
      (w.transition c e.verdict node).2.search.Numeric := Pass.numeric_transition
  have hentry : e.pass.search.Numeric := ⟨he.trial, he.start, he.best⟩
  exact Pass.run_invariant @hstep Node.longest hentry

theorem Search.Numeric.comparable [Scalar.Ordered α] {e : Search α p} (he : e.Numeric) :
    e.Comparable where
  irrefl := Scalar.Ordered.lt_irrefl he.start
  trial := Scalar.Ordered.lt_of_not_le he.start he.trial
  best := Scalar.Ordered.lt_of_not_le he.start he.best

end

end LeastSquares
