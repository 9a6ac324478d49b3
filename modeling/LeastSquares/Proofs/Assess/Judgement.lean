import LeastSquares.Proofs.Assess.Choice

namespace LeastSquares

variable {α : Type} [Scalar α] {p : Nat}

namespace Search

variable {c : Config α} {e s s' : Search α p} {kept kept' : Prop} {v : Verdict}

theorem Ruling.imp (h : e.Ruling c s kept v) (hk : kept → kept') (htrial : s'.trial = s.trial)
    (hiterate : s'.iterate = s.iterate) (hstage : s'.record.stage = s.record.stage) :
    e.Ruling c s' kept' v := by
  cases v with
  | otherOrShorter | otherOrAccept => exact ⟨hstage.trans h.1, h.2.1, hk h.2.2⟩
  | acceptByGradient | accept =>
    simp only [Ruling, Moved, htrial, hiterate]
    exact h
  | recompute => exact hk h
  | _ => exact h

theorem Ruling.moved (h : e.Ruling c s (e.Gains s) v) (he : e.Comparable)
    (hf : s.iterate.f < e.iterate.f₀) : e.Moved s := by
  have hgain (hg : e.Gains s) : e.Moved s := by
    rcases hg with hstayed | ⟨hmoved, -⟩
    · rw [hstayed.f] at hf
      exact absurd hf he.irrefl
    · exact hmoved
  cases v with
  | otherOrShorter | otherOrAccept => exact hgain h.2.2
  | acceptByGradient | accept => exact h.1
  | recompute => exact hgain h
  | _ => exact h.elim

theorem Taken.lt_of_not_le {t : Trial α p} {f : α} {x : Vector α p} {model : Model}
    (h : e.Taken t f x model) (he : e.Comparable) (hf : ¬e.iterate.f₀ ≤ f) : f < e.iterate.f₀ := by
  cases h with
  | first | better | worse | tooFar => exact he.trial hf
  | back | tooFarBack => exact he.best hf

omit [Scalar α] in
theorem Framed.moved (h : e.Framed s) {x : Vector α p} {f : α}
    (hiterate : s'.iterate = { s.iterate with x, f })
    (hstage : s'.record.stage = s.record.stage) : e.Framed s' := by
  refine ⟨?_, ?_, ?_, ?_, ?_, ?_, ?_⟩ <;> rw [hiterate]
  · exact h.x₀
  · exact h.f₀
  · exact h.d
  · exact h.radius
  · exact h.stageLimit
  · exact h.oversized
  · rw [hstage]
    exact h.stage

omit [Scalar α] in
theorem Framed.stage_of_lt (h : e.Framed s) (he : e.Ready)
    (hlt : s.record.stage < s.iterate.stageLimit) :
    s.record.stage = 1 ∧ e.iterate.stageLimit = 2 := by
  rw [h.stageLimit] at hlt
  rcases h.stage with ⟨hs, -⟩ | hs | hs <;> rcases he.1 with hl | hl <;> rw [hs, hl] at hlt
  · exact absurd hlt (by decide)
  · exact ⟨hs, hl⟩
  · exact absurd hlt (by decide)
  · exact absurd hlt (by decide)
  · exact absurd hlt (by decide)
  · exact absurd hlt (by decide)

end Search

theorem Verdict.Final.eq_falseConverged {v : Verdict} (h : v.Final)
    (hv : ¬(5 < v.code ∧ v ≠ .falseConverged)) : v = .falseConverged := by
  cases v with
  | falseConverged => rfl
  | xConverged | relFuncConverged | bothConverged | absFuncConverged | singularConverged =>
    exact absurd ⟨by decide, by decide⟩ hv
  | _ => exact h.elim

namespace Pass

variable {c : Config α} {e : Search α p} {w : Pass α p}

theorem flow_shrink (hw : Flow c e .shrink w) : Flow c e (w.shrink c).1 (w.shrink c).2 :=
  .inl ⟨hw.oversized, hw.iterate, hw.trial, rfl, hw.retries, hw.waits, hw.best⟩

theorem flow_classifyDecrease (hw : Flow c e .classifyDecrease w) :
    Flow c e (w.classifyDecrease c).1 (w.classifyDecrease c).2 := by
  obtain ⟨hframed, hmoved⟩ := hw
  refine classifyDecrease_elim (fun hlt => ?_) fun _ => ⟨hframed.moved rfl rfl, hmoved⟩
  rw [hframed.f₀] at hlt
  exact ⟨hframed.moved rfl rfl, hmoved, hlt⟩

theorem flow_trivialDecrease (he : e.Ready) (hcmp : e.Comparable)
    (hw : Flow c e .trivialDecrease w) : Flow c e w.trivialDecrease.1 w.trivialDecrease.2 := by
  obtain ⟨hframed, hmoved⟩ := hw
  have hstage := hframed.stage_of_lt he
  unfold trivialDecrease
  dsimp only
  by_cases hgain : w.search.iterate.f₀ ≤ w.search.iterate.f
  · have hgain' := hgain
    rw [hframed.f₀] at hgain'
    rw [if_pos hgain]
    split
    · refine ⟨hframed.moved rfl rfl, .inr ?_, .inl ?_⟩
      all_goals exact ⟨hframed.f₀, hframed.x₀, hgain', rfl, _, hmoved⟩
    · next hlimit =>
      obtain ⟨hs, hl⟩ := hstage (Int32.not_le.mp hlimit)
      refine ⟨hframed.moved rfl rfl, .inr ?_, hs, hl, .inl ?_⟩
      all_goals exact ⟨hframed.f₀, hframed.x₀, hgain', rfl, _, hmoved⟩
  · rw [if_neg hgain]
    rw [hframed.f₀] at hgain
    have hlt := hmoved.lt_of_not_le hcmp hgain
    split
    · exact ⟨hframed.moved rfl rfl, .inl ⟨hmoved, .inl hlt⟩, .inr ⟨hmoved, hlt⟩⟩
    · next hlimit =>
      obtain ⟨hs, hl⟩ := hstage (Int32.not_le.mp hlimit)
      exact ⟨hframed.moved rfl rfl, .inl ⟨hmoved, .inl hlt⟩, hs, hl, .inr ⟨hmoved, hlt⟩⟩

theorem flow_nontrivialDecrease (he : e.Ready) (hw : Flow c e .nontrivialDecrease w) :
    Flow c e (w.nontrivialDecrease c).1 (w.nontrivialDecrease c).2 := by
  obtain ⟨hframed, hmoved, hlt⟩ := hw
  have hstage := hframed.stage_of_lt he
  refine nontrivialDecrease_elim ?_ (fun hlimit => ?_) ?_
  · exact ⟨hframed.moved rfl rfl, hmoved, hlt⟩
  · obtain ⟨hs, hl⟩ := hstage hlimit
    exact ⟨hframed.moved rfl rfl, ⟨hmoved, .inr hlt⟩, hs, hl, trivial⟩
  · exact ⟨hframed.moved rfl rfl, .inl ⟨hmoved, .inr hlt⟩, hmoved, hlt⟩

theorem flow_fletcherRadius (hw : Flow c e .fletcherRadius w) :
    Flow c e (w.fletcherRadius c).1 (w.fletcherRadius c).2 := by
  obtain ⟨hframed, hplaced, hruling⟩ := hw
  exact ⟨hframed.moved rfl rfl, hplaced, hruling⟩

theorem flow_falseConvergenceTest (hcmp : e.Comparable)
    (hw : Flow c e .falseConvergenceTest w) :
    Flow c e (w.falseConvergenceTest c).1 (w.falseConvergenceTest c).2 := by
  obtain ⟨hframed, hplaced, hruling⟩ := hw
  refine falseConvergenceTest_elim (fun _ => ?_) (fun _ hlt => ?_) fun _ hlt => ?_
  · exact ⟨hframed.moved rfl rfl, hplaced, .inl rfl⟩
  · rw [hframed.f₀] at hlt
    exact ⟨hframed.moved rfl rfl, ⟨hruling.moved hcmp hlt, .inl hlt⟩,
      hruling.imp (fun _ => trivial) rfl rfl rfl⟩
  · rw [hframed.f₀] at hlt
    refine ⟨hframed.moved rfl rfl, hplaced, hruling.imp ?_ rfl rfl rfl⟩
    rintro (h | ⟨-, h⟩)
    · exact .inl h
    · exact absurd h hlt

theorem flow_goodDecrease (hw : Flow c e .goodDecrease w) :
    Flow c e (w.goodDecrease c).1 (w.goodDecrease c).2 := by
  obtain ⟨hframed, hmoved, hlt⟩ := hw
  refine goodDecrease_elim ⟨hframed, hmoved, hlt⟩ (fun _ => ?_) fun _ _ => ?_
  · exact ⟨hframed.moved rfl rfl, .inl ⟨hmoved, .inr hlt⟩, hmoved, hlt⟩
  · exact ⟨hframed.moved rfl rfl, ⟨hmoved, .inr hlt⟩, trivial⟩

theorem flow_saveBest (hw : Flow c e .saveBest w) : Flow c e w.saveBest.1 w.saveBest.2 := by
  obtain ⟨hframed, hfalls, hruling⟩ := hw
  refine ⟨hframed.moved rfl rfl, .inl hfalls, hruling.imp (fun _ => ?_) rfl rfl rfl⟩
  exact .inr ⟨hfalls.1, rfl, rfl, rfl, rfl, rfl, rfl⟩

theorem flow_keepRadius (hw : Flow c e .keepRadius w) :
    Flow c e w.keepRadius.1 w.keepRadius.2 := by
  obtain ⟨hframed, hmoved, hlt⟩ := hw
  exact ⟨hframed.moved rfl rfl, .inl ⟨hmoved, .inr hlt⟩, hmoved, hlt⟩

theorem flow_recordCode (hw : Flow c e .recordCode w) :
    Flow c e w.recordCode.1 w.recordCode.2 := by
  obtain ⟨hframed, hplaced, hruling⟩ := hw
  exact ⟨hframed.moved rfl rfl, hplaced, .inr ⟨rfl, hruling⟩⟩

theorem flow_convergenceTests (hw : Flow c e .convergenceTests w) :
    Flow c e (w.convergenceTests c).1 (w.convergenceTests c).2 := by
  obtain ⟨hframed, hplaced, hv⟩ := hw
  have hv' : w.search.verdict.Final ∨ e.Recorded c w.search := by
    refine hv.imp_left fun h => ?_
    rw [h]
    trivial
  refine convergenceTests_elim (fun v hnext => ?_) fun v _ hnext => ?_
  · refine .inr ⟨hframed.moved rfl rfl, hplaced, ?_⟩
    rcases hnext with ⟨hfinal, -⟩ | rfl
    · exact .inl hfinal
    · exact hv'.imp_right fun hrecorded => .inl hrecorded.2
  · refine ⟨hframed.moved rfl rfl, hplaced, ?_⟩
    rcases hnext with ⟨hfinal, -⟩ | rfl
    · exact .inl hfinal
    · exact hv'

theorem flow_singularScreen (hw : Flow c e .singularScreen w) :
    Flow c e (w.singularScreen c).1 (w.singularScreen c).2 := by
  obtain ⟨hframed, hplaced, hv⟩ := hw
  have hdone : Flow c e .done w := by
    exact .inr ⟨hframed, hplaced, hv.imp_right fun h => .inl h.2⟩
  refine singularScreen_elim hdone fun hcode => ?_
  exact ⟨hframed, hplaced, hv.imp_left fun hfinal => hfinal.eq_falseConverged hcode⟩

theorem flow_singularStepLength (hw : Flow c e .singularStepLength w) :
    Flow c e (w.singularStepLength c).1 (w.singularStepLength c).2 := by
  have hdone : Flow c e .done w := by
    obtain ⟨hframed, hplaced, hv⟩ := hw
    refine .inr ⟨hframed, hplaced, hv.imp (fun h => ?_) fun h => .inl h.2⟩
    rw [h]
    trivial
  exact singularStepLength_elim hdone hw

theorem flow_requestProbe (hw : Flow c e .requestProbe w) :
    Flow c e w.requestProbe.1 w.requestProbe.2 := by
  obtain ⟨hframed, hplaced, hv⟩ := hw
  refine requestProbe_elim ?_ ?_
  · refine ⟨hframed, hplaced, hv.imp (fun h => ?_) fun h => h.2⟩
    rw [h]
    trivial
  · refine .inr ⟨hframed.moved rfl rfl, hplaced, .inr (.inr ⟨rfl, rfl, rfl, rfl, ?_⟩)⟩
    rcases hv with hfalse | ⟨hresume, hruling⟩
    · exact .inl (if_pos hfalse)
    · by_cases hfalse : w.search.verdict = .falseConverged
      · exact .inl (if_pos hfalse)
      · refine .inr ⟨if_neg hfalse, ?_⟩
        rw [← hresume] at hruling
        refine hruling.imp ?_ rfl rfl rfl
        rintro (hstays | ⟨hmoved, hmodel, hf, -⟩)
        · exact .inl hstays
        · exact .inr ⟨hmoved, hmodel, hf, rfl, if_neg hfalse, rfl, rfl⟩

theorem flow_singularTest (hw : Flow c e .singularTest w) :
    Flow c e (w.singularTest c).1 (w.singularTest c).2 := by
  obtain ⟨hframed, hplaced, hv⟩ := hw
  exact singularTest_elim (.inr ⟨hframed.moved rfl rfl, hplaced, .inl trivial⟩)
    (.inr ⟨hframed, hplaced, hv.imp_right .inl⟩)

theorem flow_transition (he : e.Ready) (hcmp : e.Comparable) {node : Node}
    (hw : Flow c e node w) :
    Flow c e (w.transition c e.verdict node).1 (w.transition c e.verdict node).2 := by
  cases node with
  | beginIteration => exact flow_beginIteration hw
  | retryDecision => exact flow_retryDecision hw
  | newModelTried => exact flow_newModelTried hw
  | recomputedStep => exact flow_recomputedStep hw
  | checkOversize => exact flow_checkOversize hw
  | shrink => exact flow_shrink hw
  | compareWithBest => exact flow_compareWithBest hw
  | restoreBest => exact flow_restoreBest hw
  | measureStep => exact flow_measureStep hw
  | classifyDecrease => exact flow_classifyDecrease hw
  | trivialDecrease => exact flow_trivialDecrease he hcmp hw
  | nontrivialDecrease => exact flow_nontrivialDecrease he hw
  | fletcherRadius => exact flow_fletcherRadius hw
  | falseConvergenceTest => exact flow_falseConvergenceTest hcmp hw
  | goodDecrease => exact flow_goodDecrease hw
  | saveBest => exact flow_saveBest hw
  | keepRadius => exact flow_keepRadius hw
  | resumeAfterConvergence => exact hw.elim
  | recordCode => exact flow_recordCode hw
  | convergenceTests => exact flow_convergenceTests hw
  | singularScreen => exact flow_singularScreen hw
  | singularStepLength => exact flow_singularStepLength hw
  | requestProbe => exact flow_requestProbe hw
  | probed => exact hw.elim
  | singularTest => exact flow_singularTest hw
  | done => exact hw

theorem run_invariant {inv : Node → Pass α p → Prop} {entry : Verdict}
    (hstep : ∀ {node w}, inv node w →
      inv (w.transition c entry node).1 (w.transition c entry node).2) (k : Nat) {node : Node}
    (hw : inv node w) : inv (run c entry k node w).1 (run c entry k node w).2 := by
  induction k generalizing node w with
  | zero => exact hw
  | succ k ih =>
    rw [run]
    split
    · next h =>
      subst h
      exact hw
    · exact ih (hstep hw)

end Pass

theorem Search.Ready.countable {e : Search α p} (he : e.Ready) :
    e.pass.Countable e.verdict.entry := by
  have hstage : e.pass.search.record.stage = e.record.stage := rfl
  rw [Pass.Countable, hstage]
  have he := he.2
  cases hv : e.verdict <;> rw [hv] at he
  case otherOrShorter =>
    rw [he.1]
    exact ⟨by decide, by decide⟩
  case otherOrAccept =>
    rw [he.1]
    exact ⟨by decide, by decide⟩
  case recompute =>
    change -2147483647 < e.record.stage.toInt
    rcases he with ⟨h | h | h, -⟩ | ⟨h, -⟩ | ⟨h, -⟩ | ⟨h, -⟩ <;> rw [h] <;> decide
  all_goals trivial

theorem Search.Ready.assess_invariant {c : Config α} {e : Search α p} (he : e.Ready)
    {inv : Node → Pass α p → Prop} (hentry : inv e.verdict.entry e.pass)
    (hstep : ∀ {node w}, inv node w →
      inv (w.transition c e.verdict node).1 (w.transition c e.verdict node).2) :
    ∃ w, inv .done w ∧ assess c e = w.search := by
  have hrun := Pass.run_invariant hstep Node.longest hentry
  have hdone := Pass.run_of_left_le e.pass c e.verdict Node.longest e.verdict.entry
    (Node.rank_le_longest _ _) he.countable
  rw [hdone] at hrun
  exact ⟨_, hrun, rfl⟩

theorem Search.Ready.assess_invariant_with {c : Config α} {e : Search α p} (he : e.Ready)
    (hcmp : e.Comparable) {inv : Node → Pass α p → Prop} (hentry : inv e.verdict.entry e.pass)
    (hstep : ∀ {node w}, Pass.Flow c e node w → inv node w →
      inv (w.transition c e.verdict node).1 (w.transition c e.verdict node).2) :
    ∃ w, inv .done w ∧ assess c e = w.search := by
  have hboth {node : Node} {w : Pass α p} (hw : Pass.Flow c e node w ∧ inv node w) :
      Pass.Flow c e (w.transition c e.verdict node).1 (w.transition c e.verdict node).2 ∧
        inv (w.transition c e.verdict node).1 (w.transition c e.verdict node).2 :=
    ⟨Pass.flow_transition he hcmp hw.1, hstep hw.1 hw.2⟩
  obtain ⟨w, ⟨-, hw⟩, heq⟩ := he.assess_invariant ⟨Pass.flow_entry he, hentry⟩ @hboth
  exact ⟨w, hw, heq⟩

theorem assess_assessed {c : Config α} {e : Search α p} (he : e.Ready) (hcmp : e.Comparable) :
    e.Assessed c (assess c e) := by
  obtain ⟨w, hw, heq⟩ :=
    he.assess_invariant (c := c) (Pass.flow_entry he) (Pass.flow_transition he hcmp)
  rw [heq]
  exact hw

end LeastSquares
