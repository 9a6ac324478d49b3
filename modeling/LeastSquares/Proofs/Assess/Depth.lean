import LeastSquares.Proofs.Assess.Frame
import LeastSquares.Proofs.Assess.Protocol

namespace LeastSquares

variable {α : Type} {p : Nat}

def Verdict.switches : Verdict → Bool
  | otherOrShorter | otherOrAccept => true
  | _ => false

theorem Verdict.switches_iff {v : Verdict} :
    v.switches = true ↔ v = .otherOrShorter ∨ v = .otherOrAccept := by
  cases v <;> simp [switches]

namespace Search

variable (e : Search α p)

/-- How many models were tried, whether or not the last trial could be evaluated. -/
def depth : Nat := e.record.stage.toInt.natAbs

def Limited : Prop := 2 ≤ e.depth → e.iterate.stageLimit = 2

def Begins : Prop := e.verdict.entry = .beginIteration

def due : Nat :=
  match e.verdict with
  | .acceptByGradient | .accept => 1
  | .otherOrShorter | .otherOrAccept => 2
  | _ => e.depth

/-- A trial that begins nothing finds the models counted that were tried before it. -/
structure Counted : Prop where
  timely : e.Timely
  limited : ¬e.Begins → e.Limited

variable {e} {s : Search α p}

theorem begins_iff : e.Begins ↔ e.verdict = .acceptByGradient ∨ e.verdict = .accept := by
  unfold Begins
  cases e.verdict <;> simp [Verdict.entry]

theorem depth_eq {k : Int32} {d : Nat} (h : e.record.stage = k) (hk : k.toInt.natAbs = d) :
    e.depth = d := by
  rw [depth, h, hk]

theorem depth_congr (h : s.record.stage = e.record.stage) : s.depth = e.depth :=
  depth_eq h rfl

theorem depth_neg (h : s.record.stage = -e.record.stage) : s.depth = e.depth := by
  refine depth_eq h ?_
  rw [depth]
  by_cases hleast : -2147483648 < e.record.stage.toInt
  · rw [stage_neg hleast, Int.natAbs_neg]
  · have hle := e.record.stage.le_toInt
    have heq : e.record.stage.toInt = -2147483648 := by omega
    rw [Int32.toInt_neg, heq]
    rfl

theorem depth_pos (h : e.record.stage = 1 ∨ e.record.stage = 2 ∨ e.record.stage = 3) :
    1 ≤ e.depth := by
  rcases h with h | h | h <;> rw [depth_eq h rfl] <;> decide

theorem Answered.depth_pos (h : e.Answered) : 1 ≤ e.depth := by
  rcases h.answer with ⟨-, hdue⟩ | ⟨hmeasured, -⟩
  · have hneg : depth { e with record := { e.record with stage := -e.record.stage } } = e.depth :=
      depth_neg rfl
    rw [← hneg]
    exact Search.depth_pos hdue.stage_eq
  · exact Search.depth_pos hmeasured

theorem Answered.of_switches (h : e.Answered) (hv : e.verdict.switches = true) :
    e.depth = 1 ∧ e.iterate.stageLimit = 2 := by
  have hother := h.other (Verdict.switches_iff.mp hv) e.iterate.model
  have hentry := hother.entry
  dsimp only at hentry
  rcases Verdict.switches_iff.mp hv with hv | hv <;> rw [hv] at hentry <;>
    exact ⟨depth_eq hentry.1 rfl, hentry.2⟩

theorem Limited.congr (h : e.Limited) (hstage : s.record.stage = e.record.stage)
    (hlimit : s.iterate.stageLimit = e.iterate.stageLimit) : s.Limited := by
  intro hdepth
  rw [hlimit]
  exact h (hdepth.trans_eq (depth_congr hstage))

theorem due_of_begins (h : e.Begins) : e.due = 1 := by
  unfold due
  rcases begins_iff.mp h with h | h <;> rw [h]

theorem due_of_switches (h : e.verdict.switches = true) : e.due = 2 := by
  unfold due
  rcases Verdict.switches_iff.mp h with h | h <;> rw [h]

theorem Timely.depth_le_due (h : e.Timely) (hbegins : ¬e.Begins) : e.depth ≤ e.due := by
  have hentry := h.entry
  unfold Begins at hbegins
  unfold due
  cases hv : e.verdict <;> rw [hv] at hentry hbegins
  case otherOrShorter | otherOrAccept =>
    rw [depth_eq hentry.1 rfl]
    decide
  case acceptByGradient | accept => exact absurd rfl hbegins

end Search

namespace Pass

/-- What holds before each node once the stage is set, where so many models are counted. -/
def Deep (k : Nat) : Node → Pass α p → Prop
  | .beginIteration, _ => False
  | .retryDecision, w | .newModelTried, w => k ≤ 2 ∧ w.search.iterate.stageLimit = 2
  | _, w => k ≤ w.search.depth ∧ w.search.Limited

variable {c : Config α} {k : Nat} {v : Verdict} {node : Node} {w : Pass α p}

theorem counts_depth (h : w.search.verdict.Counts w.search.record.stage) :
    w.search.depth ≤ 2 ∧ 2 ≤ w.newModelTried.2.search.depth ∧
      w.search.depth ≤ w.newModelTried.2.search.depth := by
  rcases h with ⟨hk, -⟩ | ⟨hk, -⟩
  · have hnext : w.newModelTried.2.search.record.stage = 2 := by
      change w.search.record.stage + 1 = 2
      rw [hk]
      decide
    rw [Search.depth_eq hk rfl, Search.depth_eq hnext rfl]
    decide
  · have hnext : w.newModelTried.2.search.record.stage = 3 := by
      change w.search.record.stage + 1 = 3
      rw [hk]
      decide
    rw [Search.depth_eq hk rfl, Search.depth_eq hnext rfl]
    decide

theorem deep_retryDecision (hw : Timed v .retryDecision w) (hd : Deep k .retryDecision w) :
    Deep k w.retryDecision.1 w.retryDecision.2 ∧
      w.search.depth ≤ w.retryDecision.2.search.depth := by
  obtain ⟨hk, hlimit⟩ := hd
  unfold retryDecision
  split
  · exact ⟨⟨hk, hlimit⟩, le_rfl⟩
  · have hdepth : (w.note { w.search.record with
        stage := w.search.iterate.stageLimit, growth := -1 }).search.depth = 2 :=
      Search.depth_eq hlimit rfl
    exact ⟨⟨hk.trans_eq hdepth.symm, fun _ => hlimit⟩,
      (counts_depth hw.place).1.trans_eq hdepth.symm⟩

theorem deep_newModelTried (hw : Timed v .newModelTried w) (hd : Deep k .newModelTried w) :
    Deep k w.newModelTried.1 w.newModelTried.2 ∧
      w.search.depth ≤ w.newModelTried.2.search.depth := by
  obtain ⟨hk, hlimit⟩ := hd
  obtain ⟨-, htwo, hle⟩ := counts_depth hw.place
  exact ⟨⟨hk.trans htwo, fun _ => hlimit⟩, hle⟩

theorem deep_negated (hd : k ≤ w.search.depth ∧ w.search.Limited) {s : Search α p}
    (hstage : s.record.stage = -w.search.record.stage) (hiterate : s.iterate = w.search.iterate) :
    (k ≤ s.depth ∧ s.Limited) ∧ w.search.depth ≤ s.depth := by
  have hdepth : s.depth = w.search.depth := Search.depth_neg hstage
  refine ⟨⟨hd.1.trans_eq hdepth.symm, fun htwo => ?_⟩, hdepth.ge⟩
  rw [hiterate]
  exact hd.2 (htwo.trans_eq hdepth)

theorem depth_of_switches (hdue : w.search.record.resume.Due (-w.search.record.stage))
    (hv : w.search.record.resume.switches = true) : w.search.depth = 2 := by
  have hstage : -w.search.record.stage = 2 := by
    rcases hdue with ⟨-, h | h | h⟩ | ⟨hk, -⟩ | ⟨-, h⟩
    · rw [h] at hv
      cases hv
    · rw [h] at hv
      cases hv
    · rw [h] at hv
      cases hv
    · exact hk
    · rw [h] at hv
      cases hv
  have hneg : Search.depth { w.search with
      record := { w.search.record with stage := -w.search.record.stage } } = w.search.depth :=
    Search.depth_neg rfl
  exact hneg.symm.trans (Search.depth_eq hstage rfl)

theorem deep_recomputedStep (hw : Timed v .recomputedStep w) (hd : Deep k .recomputedStep w) :
    Deep k w.recomputedStep.1 w.recomputedStep.2 ∧
      w.search.depth ≤ w.recomputedStep.2.search.depth := by
  unfold recomputedStep
  split
  · exact ⟨hd, le_rfl⟩
  next hneg =>
  have hdue : w.search.record.resume.Due (-w.search.record.stage) := by
    rcases hw.place with hdue | ⟨-, hdue⟩
    · refine absurd ?_ hneg
      rcases hdue.stage_eq with hk | hk | hk <;> rw [hk] <;> decide
    · exact hdue
  have hsame := deep_negated hd (s := { w.search with
    record := { w.search.record with stage := -w.search.record.stage } }) rfl rfl
  have hother (hv : w.search.record.resume.switches = true) :
      k ≤ 2 ∧ w.search.iterate.stageLimit = 2 := by
    have hdepth := depth_of_switches hdue hv
    exact ⟨hd.1.trans_eq hdepth, hd.2 hdepth.ge⟩
  split
  · exact ⟨hd, le_rfl⟩
  · dsimp only
    split
    · next hv => exact ⟨hother (congrArg Verdict.switches hv), hsame.2⟩
    · next hv => exact ⟨hother (congrArg Verdict.switches hv), hsame.2⟩
    · exact hsame
    · exact hsame
    · exact hsame
    · exact hsame

theorem deep_checkOversize (hd : Deep k .checkOversize w) :
    Deep k w.checkOversize.1 w.checkOversize.2 ∧
      w.search.depth ≤ w.checkOversize.2.search.depth := by
  unfold checkOversize
  split
  · exact ⟨hd, le_rfl⟩
  · split
    · exact ⟨hd, le_rfl⟩
    · exact deep_negated hd rfl rfl

variable [Scalar α]

theorem deep_transition (hw : Timed v node w) (hd : Deep k node w) :
    Deep k (w.transition c v node).1 (w.transition c v node).2 ∧
      w.search.depth ≤ (w.transition c v node).2.search.depth := by
  cases node with
  | beginIteration => exact hd.elim
  | retryDecision => exact deep_retryDecision hw hd
  | newModelTried => exact deep_newModelTried hw hd
  | recomputedStep => exact deep_recomputedStep hw hd
  | checkOversize => exact deep_checkOversize hd
  | _ =>
    simp only [transition, shrink, compareWithBest, restoreBest, measureStep, classifyDecrease,
      trivialDecrease, nontrivialDecrease, fletcherRadius, falseConvergenceTest, goodDecrease,
      saveBest, keepRadius, resumeAfterConvergence, recordCode, convergenceTests, singularScreen,
      singularStepLength, requestProbe, probed, singularTest]
    (repeat' split) <;> exact ⟨hd, le_rfl⟩

omit [Scalar α] in
theorem deep_beginIteration : Deep 1 (w.beginIteration v).1 (w.beginIteration v).2 := by
  have hone {s : Search α p} (h : s.depth = 1) : 1 ≤ s.depth ∧ s.Limited :=
    ⟨h.ge, fun htwo => absurd (htwo.trans_eq h) (by decide)⟩
  unfold beginIteration
  dsimp only
  split
  · exact hone (Search.depth_eq rfl rfl)
  · exact hone (Search.depth_eq rfl rfl)

theorem deep_run (hw : Timed v node w) (hd : Deep k node w) (j : Nat) :
    Deep k (run c v j node w).1 (run c v j node w).2 ∧
      w.search.depth ≤ (run c v j node w).2.search.depth := by
  have hstep : ∀ {node' : Node} {w' : Pass α p},
      Timed v node' w' ∧ Deep k node' w' ∧ w.search.depth ≤ w'.search.depth →
        Timed v (w'.transition c v node').1 (w'.transition c v node').2 ∧
        Deep k (w'.transition c v node').1 (w'.transition c v node').2 ∧
        w.search.depth ≤ (w'.transition c v node').2.search.depth := by
    rintro node' w' ⟨hw', hd', hle⟩
    obtain ⟨hnext, hgrows⟩ := deep_transition (c := c) hw' hd'
    exact ⟨timed_transition hw', hnext, hle.trans hgrows⟩
  exact (run_invariant @hstep j ⟨hw, hd, le_rfl⟩).2

theorem run_add (i j : Nat) :
    run c v (i + j) node w = run c v j (run c v i node w).1 (run c v i node w).2 := by
  induction i generalizing node w with
  | zero => rw [Nat.zero_add, run]
  | succ i ih =>
    rw [Nat.succ_add, run, run]
    split
    · next hdone =>
      cases j <;> rw [run]
      rfl
    · exact ih

end Pass

namespace Search

variable [Scalar α] {c : Config α} {e s : Search α p}

/-- The models that are counted after so many moves of an assessment. -/
def depthAt (c : Config α) (e : Search α p) (k : Nat) : Nat :=
  (Pass.run c e.verdict k e.verdict.entry e.pass).2.search.depth

theorem Counted.deep_entry (he : e.Counted) (hbegins : ¬e.Begins) :
    Pass.Deep e.due e.verdict.entry e.pass := by
  have hlimited := he.limited hbegins
  have hentry := he.timely.entry
  unfold Begins at hbegins
  unfold due
  cases hv : e.verdict <;> rw [hv] at hentry hbegins
  case acceptByGradient | accept => exact absurd rfl hbegins
  case otherOrShorter | otherOrAccept => exact ⟨le_rfl, hentry.2⟩
  case recompute | probe => exact ⟨le_rfl, hlimited⟩
  all_goals exact hentry.elim

theorem Counted.run_deep (he : e.Counted) (k : Nat) (hk : e.Begins → 0 < k) :
    Pass.Deep e.due (Pass.run c e.verdict k e.verdict.entry e.pass).1
      (Pass.run c e.verdict k e.verdict.entry e.pass).2 := by
  by_cases hbegins : e.Begins
  · obtain ⟨j, rfl⟩ := Nat.exists_eq_succ_of_ne_zero (hk hbegins).ne'
    have hfirst := Pass.timed_transition (c := c) (Pass.timed_entry he.timely)
    unfold Begins at hbegins
    rw [hbegins] at hfirst
    rw [hbegins, due_of_begins hbegins, Pass.run, if_neg (by decide)]
    exact (Pass.deep_run hfirst Pass.deep_beginIteration j).1
  · exact (Pass.deep_run (Pass.timed_entry he.timely) (he.deep_entry hbegins) k).1

theorem Counted.due_le (he : e.Counted) :
    e.due ≤ (assess c e).depth ∧ (assess c e).Limited := by
  have hdeep := he.run_deep (c := c) Node.longest fun _ => by decide
  rw [he.timely.ends] at hdeep
  exact hdeep

theorem Counted.depthAt_mono (he : e.Counted) {i j : Nat} (hi : e.Begins → 0 < i) (hij : i ≤ j) :
    e.depthAt c i ≤ e.depthAt c j := by
  obtain ⟨d, rfl⟩ := Nat.exists_eq_add_of_le hij
  unfold depthAt
  rw [Pass.run_add]
  exact (Pass.deep_run (he.timely.run_timed i) (he.run_deep i hi) d).2

end Search

end LeastSquares
