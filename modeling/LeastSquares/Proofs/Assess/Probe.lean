import LeastSquares.Proofs.Assess.Judgement

namespace LeastSquares

variable {α : Type} [Scalar α] {p : Nat}

namespace Search

/-- The trial was judged, and a probe that was asked for has been answered. What the probe
changes of the trial is not what it was judged by. -/
def Judged (c : Config α) (e s : Search α p) : Prop :=
  ∃ t, t.step = s.trial.step ∧ t.reduction = s.trial.reduction ∧ t.slope = s.trial.slope ∧
    (e.Shrunk { s with trial := t } ∨
      e.Framed { s with trial := t } ∧ e.Placed c { s with trial := t } ∧
        (s.verdict.Final ∨
          e.Ruling c { s with trial := t } (e.Kept { s with trial := t }) s.verdict))

/-- A false convergence waits for a probe, and the length it is noted in does not show it. -/
def Forgets (s : Search α p) : Prop :=
  s.verdict = .probe ∧ s.record.bestLength = -s.trial.length ∧ ¬s.record.bestLength ≤ 0

theorem assess_probe (c : Config α) {s : Search α p} (hv : s.verdict = .probe) :
    ∃ v, assess c s = { s with
        verdict := v
        trial := { s.trial with
          slope := s.record.bestSlope
          length := Scalar.abs s.record.bestLength
          step := s.record.bestStep
          newtonReduction := -s.trial.reduction
          reduction := s.record.bestReduction }
        record := { s.record with restored := false, switched := false } } ∧
      (v = .singularConverged ∨
        v = if s.record.bestLength ≤ 0 then .falseConverged else s.record.resume) := by
  have hrun : assess c s = (s.pass.probed.2.singularTest c).2.search := by
    rw [assess, hv]
    rfl
  unfold Pass.singularTest at hrun
  dsimp only at hrun
  split at hrun
  · exact ⟨_, hrun, .inl rfl⟩
  · exact ⟨_, hrun, .inr rfl⟩

variable {c : Config α} {e s : Search α p} {v : Verdict} {kept : Prop}

theorem Ruling.of_recompute (h : e.Ruling c s kept v) (hv : v = .recompute) : kept := by
  subst hv
  exact h

theorem Ruling.of_other (h : e.Ruling c s kept v) (hv : v = .otherOrShorter ∨ v = .otherOrAccept) :
    s.record.stage = 1 ∧ e.iterate.stageLimit = 2 ∧ kept := by
  rcases hv with rfl | rfl <;> exact h

theorem Ruling.of_accept (h : e.Ruling c s kept v) (hv : v = .acceptByGradient ∨ v = .accept) :
    e.Moved s ∧ c.tuner2 * s.trial.reduction < e.iterate.f₀ - s.iterate.f := by
  rcases hv with rfl | rfl <;> exact h

theorem Assessed.judged (h : e.Assessed c s) (hv : s.verdict ≠ .probe) : e.Judged c s := by
  refine ⟨s.trial, rfl, rfl, rfl, ?_⟩
  rcases h with hshrunk | ⟨hframed, hplaced, hfinal | hruling | hasks⟩
  · exact .inl hshrunk
  · exact .inr ⟨hframed, hplaced, .inl hfinal⟩
  · exact .inr ⟨hframed, hplaced, .inr hruling⟩
  · exact absurd hasks.verdict hv

theorem Assessed.judged_probe (h : e.Assessed c s) (hv : s.verdict = .probe)
    (hknown : ¬s.Forgets) (t : Trial α p) :
    e.Judged c (assess c { s with trial := t }) := by
  rcases h with hshrunk | ⟨hframed, hplaced, hfinal | hruling | hasks⟩
  · rw [hshrunk.verdict] at hv
    cases hv
  · rw [hv] at hfinal
    exact hfinal.elim
  · rw [hv] at hruling
    exact hruling.elim
  · obtain ⟨v, heq, hverdict⟩ := assess_probe c (s := { s with trial := t }) hv
    rw [heq]
    refine ⟨s.trial, hasks.step.symm, hasks.reduction.symm, hasks.slope.symm,
      .inr ⟨hframed.moved rfl rfl, hplaced, ?_⟩⟩
    rcases hverdict with rfl | rfl
    · exact .inl trivial
    · dsimp only
      split
      · exact .inl trivial
      · next hnot =>
        rcases hasks.length with hneg | ⟨-, hruling⟩
        · exact absurd ⟨hv, hneg, hnot⟩ hknown
        · exact .inr (hruling.imp id rfl rfl rfl)

theorem Judged.of_other (h : e.Judged c s)
    (hv : s.verdict = .otherOrShorter ∨ s.verdict = .otherOrAccept) :
    ∃ t, t.reduction = s.trial.reduction ∧ e.Framed { s with trial := t } ∧
      s.record.stage = 1 ∧ e.iterate.stageLimit = 2 ∧ e.Kept { s with trial := t } := by
  obtain ⟨t, -, hreduction, -, hshrunk | ⟨hframed, -, hfinal | hruling⟩⟩ := h
  · have hrecompute : s.verdict = .recompute := hshrunk.verdict
    rw [hrecompute] at hv
    rcases hv with hv | hv <;> cases hv
  · rcases hv with hv | hv <;> rw [hv] at hfinal <;> exact hfinal.elim
  · exact ⟨t, hreduction, hframed, hruling.of_other hv⟩

theorem Judged.of_recompute (h : e.Judged c s) (hv : s.verdict = .recompute) :
    ∃ t, t.reduction = s.trial.reduction ∧ (e.Shrunk { s with trial := t } ∨
      e.Framed { s with trial := t } ∧ e.Kept { s with trial := t }) := by
  obtain ⟨t, -, hreduction, -, hshrunk | ⟨hframed, -, hfinal | hruling⟩⟩ := h
  · exact ⟨t, hreduction, .inl hshrunk⟩
  · rw [hv] at hfinal
    exact hfinal.elim
  · exact ⟨t, hreduction, .inr ⟨hframed, hruling.of_recompute hv⟩⟩

theorem Judged.again (h : e.Judged c s)
    (hv : s.verdict = .otherOrShorter ∨ s.verdict = .otherOrAccept ∨ s.verdict = .recompute) :
    ∃ t, t.reduction = s.trial.reduction ∧ (e.Shrunk { s with trial := t } ∨
      e.Framed { s with trial := t } ∧ e.Kept { s with trial := t }) := by
  rcases or_assoc.mpr hv with hother | hrecompute
  · obtain ⟨t, hreduction, hframed, -, -, hkept⟩ := h.of_other hother
    exact ⟨t, hreduction, .inr ⟨hframed, hkept⟩⟩
  · exact h.of_recompute hrecompute

theorem Judged.x₀_eq (h : e.Judged c s) : s.iterate.x₀ = e.iterate.x₀ := by
  obtain ⟨t, -, -, -, hshrunk | ⟨hframed, -⟩⟩ := h
  · exact congrArg Iterate.x₀ hshrunk.iterate
  · exact hframed.x₀

theorem Judged.f₀_eq (h : e.Judged c s) : s.iterate.f₀ = e.iterate.f₀ := by
  obtain ⟨t, -, -, -, hshrunk | ⟨hframed, -⟩⟩ := h
  · exact congrArg Iterate.f₀ hshrunk.iterate
  · exact hframed.f₀

theorem Judged.d_eq (h : e.Judged c s) : s.iterate.d = e.iterate.d := by
  obtain ⟨t, -, -, -, hshrunk | ⟨hframed, -⟩⟩ := h
  · exact congrArg Iterate.d hshrunk.iterate
  · exact hframed.d

theorem Judged.radius_eq (h : e.Judged c s) : s.iterate.radius = e.iterate.radius := by
  obtain ⟨t, -, -, -, hshrunk | ⟨hframed, -⟩⟩ := h
  · exact congrArg Iterate.radius hshrunk.iterate
  · exact hframed.radius

theorem Judged.stageLimit_eq (h : e.Judged c s) :
    s.iterate.stageLimit = e.iterate.stageLimit := by
  obtain ⟨t, -, -, -, hshrunk | ⟨hframed, -⟩⟩ := h
  · exact congrArg Iterate.stageLimit hshrunk.iterate
  · exact hframed.stageLimit

theorem Kept.bestModel_eq (h : e.Kept s) : s.record.bestModel = s.iterate.model := by
  rcases h with hstays | ⟨-, hmodel, -⟩
  · exact hstays.model
  · exact hmodel

omit [Scalar α] in
theorem Shrunk.ready (he : e.Ready) (h : e.Shrunk s) (radius : α) :
    Ready { s with iterate := { s.iterate with radius } } := by
  have hlimit : s.iterate.stageLimit = e.iterate.stageLimit := by rw [h.iterate]
  refine ⟨?_, ?_⟩
  · change s.iterate.stageLimit = 1 ∨ s.iterate.stageLimit = 2
    rw [hlimit]
    exact he.1
  · dsimp only
    rw [h.verdict]
    exact h.retries

theorem Judged.ready_again (he : e.Ready) (h : e.Judged c s) (hv : s.verdict = .recompute)
    (radius : α) : Ready { s with iterate := { s.iterate with radius } } := by
  obtain ⟨t, -, hshrunk | ⟨hframed, hkept⟩⟩ := h.of_recompute hv
  · exact hshrunk.ready he radius
  · have hmodel : s.record.bestModel = s.iterate.model := hkept.bestModel_eq
    have hlimit : s.iterate.stageLimit = e.iterate.stageLimit := hframed.stageLimit
    refine ⟨?_, ?_⟩
    · change s.iterate.stageLimit = 1 ∨ s.iterate.stageLimit = 2
      rw [hlimit]
      exact he.1
    · dsimp only
      rw [hv]
      refine .inl ⟨?_, hmodel.symm⟩
      exact hframed.stage.imp And.left id

theorem Judged.ready_other (h : e.Judged c s)
    (hv : s.verdict = .otherOrShorter ∨ s.verdict = .otherOrAccept) :
    Ready { s with iterate := { s.iterate with model := e.iterate.model.other } } := by
  obtain ⟨t, -, hframed, hstage, htwo, hkept⟩ := h.of_other hv
  have hlimit : s.iterate.stageLimit = 2 := hframed.stageLimit.trans htwo
  have hmodel : s.iterate.model = e.iterate.model := by
    rcases hframed.stage with ⟨-, hmodel⟩ | htwo | hthree
    · exact hmodel
    · exact absurd (hstage.symm.trans htwo) (by decide)
    · exact absurd (hstage.symm.trans hthree) (by decide)
  have hother : e.iterate.model.other ≠ s.record.bestModel := by
    have hbest : s.record.bestModel = s.iterate.model := hkept.bestModel_eq
    rw [hbest, hmodel]
    cases e.iterate.model <;> decide
  refine ⟨.inr hlimit, ?_⟩
  dsimp only
  rcases hv with hv | hv <;> rw [hv] <;> exact ⟨hstage, hlimit, hother⟩

end Search

end LeastSquares
