import LeastSquares.Proofs.TrustStep.Optimal

namespace LeastSquares

open Matrix

variable {n : Nat}

/-- What no model is needed for: nothing in the memory is negative that could not be. -/
structure StepMemory.Nonneg (m : StepMemory ℝ n) : Prop where
  reduction : 0 ≤ m.newtonReduction
  low : 0 ≤ m.low
  high : 0 ≤ m.high

namespace StepTask

variable (t : StepTask ℝ n)

structure Positive (w : StepWork ℝ n) : Prop where
  plain : w.special = false ∧ w.stuck = false
  memory : w.memory.Nonneg
  parameter : 0 ≤ w.parameter
  factor : ∃ l, w.factor = some l ∧ (t.hessian.addToDiagonal w.parameter).cholesky = .ok l

def Gaining : Phase → StepWork ℝ n → Prop
  | .freshStart, w => w.special = false ∧ w.stuck = false
  | .tryNewton, w | .bracket, w | .restart, w => (w.special = false ∧ w.stuck = false) ∧
      0 ≤ w.memory.newtonReduction
  | .shift, w => (w.special = false ∧ w.stuck = false) ∧ w.memory.Nonneg
  | .solve, w => t.Positive w
  | .checkSpecial, w => t.Positive w ∧ t.Stepped w ∧ w.excess < 0
  | .update, w => t.Positive w ∧ t.Stepped w
  | .done, w => 0 ≤ w.memory.newtonReduction ∧ (w.stuck = true ∨ w.stuck = false ∧
      0 ≤ w.length ∧ 0 ≤ w.parameter ∧ (w.special = false ∧ 0 ≤ w.energy ∨
        w.special = true ∧ t.Stretched w))

variable {t} {w : StepWork ℝ n} {m : StepMemory ℝ n}

theorem nonneg_widen (hm : m.Nonneg) : m.widen.Nonneg := by
  unfold StepMemory.widen
  split
  · refine ⟨hm.reduction, hm.low, ?_⟩
    have hlow := hm.low
    change (0 : ℝ) ≤ 2 * m.low + 1 / 1000
    linarith
  · exact hm

theorem nonneg_raiseLow (hm : m.Nonneg) (v : ℝ) : (m.raiseLow v).Nonneg :=
  ⟨hm.reduction, hm.low.trans (le_max_left m.low v), hm.high⟩

theorem nonneg_bracketMemory (hm : 0 ≤ m.newtonReduction) : (t.bracketMemory m).Nonneg := by
  apply nonneg_widen
  refine ⟨hm, le_max_right _ _, ?_⟩
  dsimp only
  split
  · norm_num
  · next h => exact (not_le.mp h).le

theorem nonneg_cutByLast (hm : m.Nonneg) (last : Factored ℝ n) :
    (t.cutByLast m last).Nonneg := by
  unfold cutByLast
  apply nonneg_widen
  split
  · exact nonneg_raiseLow hm _
  · split
    · next h => exact ⟨hm.reduction, hm.low, le_min hm.high h.1.le⟩
    · exact hm

theorem safeParameter_nonneg (hm : m.Nonneg) (a : ℝ) : 0 ≤ t.safeParameter m a := by
  unfold safeParameter
  split
  · apply add_nonneg
    · exact mul_nonneg (by norm_num) (le_max_right _ _)
    · exact mul_nonneg (mul_nonneg (by norm_num) epsilon_pos.le)
        (zero_le_one.trans (le_max_right _ _))
  · split
    · exact mul_nonneg hm.high (le_max_of_le_left (by norm_num))
    · next h =>
      rw [not_or, not_lt] at h
      exact hm.low.trans h.1

theorem gaining_hebden (hplain : w.special = false ∧ w.stuck = false) (hm : w.memory.Nonneg) :
    t.Gaining (t.hebden w).1 (t.hebden w).2 := by
  obtain heq | ⟨parameter, heq⟩ := t.hebden_cases w
  · rw [heq]
    exact ⟨hplain, hm⟩
  · rw [heq]
    exact ⟨hplain, nonneg_raiseLow hm parameter⟩

theorem gaining_tryNewton (hw : t.Gaining .tryNewton w) :
    t.Gaining (t.tryNewton w).1 (t.tryNewton w).2 := by
  obtain ⟨hplain, hm⟩ := hw
  obtain ⟨e, -, heq⟩ | ⟨l, hl, ⟨-, heq⟩ | ⟨-, s, energy, -, henergy, hcases⟩⟩ :=
    t.tryNewton_cases w
  · rw [heq]
    exact ⟨hplain, hm⟩
  · rw [heq]
    exact ⟨hplain, le_refl 0⟩
  · have hform := (Symmetric.posDef_of_cholesky hl).posSemidef.dotProduct_mulVec_nonneg (coords s)
    rw [star_trivial, ← henergy] at hform
    have hreduction : (0 : ℝ) ≤ 1 / 2 * energy := by linarith
    obtain ⟨-, heq⟩ | ⟨-, heq⟩ := hcases
    · rw [heq]
      exact ⟨hreduction, .inr ⟨hplain.2, norm_nonneg s, le_refl 0, .inl ⟨hplain.1, hform⟩⟩⟩
    · rw [heq]
      exact ⟨hplain, hreduction⟩

theorem gaining_restart (hw : t.Gaining .restart w) :
    t.Gaining (t.restart w).1 (t.restart w).2 := by
  obtain ⟨hplain, hm⟩ := hw
  have hm' : (t.restartMemory { w.memory with count := 0 }).Nonneg := by
    unfold restartMemory
    dsimp only
    split
    · exact nonneg_bracketMemory hm
    · exact nonneg_bracketMemory hm
  obtain ⟨s, -, hpos, -, heq⟩ | ⟨-, ⟨last, -, heq⟩ | heq⟩ := t.restart_cases w
  · have henergy : (0 : ℝ) ≤ 2 * w.memory.newtonReduction := by linarith
    rw [heq]
    exact ⟨hm, .inr ⟨hplain.2, hpos.le, le_refl 0, .inl ⟨hplain.1, henergy⟩⟩⟩
  · rw [heq]
    refine gaining_hebden ?_ ?_
    · exact hplain
    · exact nonneg_cutByLast hm' last
  · rw [heq]
    exact ⟨hplain, hm'⟩

theorem gaining_shift (hw : t.Gaining .shift w) : t.Gaining (t.shift w).1 (t.shift w).2 := by
  obtain ⟨hplain, hm⟩ := hw
  have hm' : StepMemory.Nonneg { w.memory with count := w.memory.count + 1 } :=
    ⟨hm.reduction, hm.low, hm.high⟩
  obtain ⟨-, heq⟩ | ⟨-, a, rfl, ⟨l, hl, heq⟩ | ⟨e, -, heq⟩⟩ := t.shift_cases w
  · rw [heq]
    exact ⟨hm.reduction, .inl rfl⟩
  · rw [heq]
    exact ⟨hplain, hm', safeParameter_nonneg hm' _, l, rfl, hl⟩
  · rw [heq]
    exact ⟨hplain, nonneg_widen ⟨hm.reduction, hm.low.trans (le_max_left _ _), hm.high⟩⟩

theorem Positive.gaining (hw : t.Positive w) (hs : t.Stepped w) : t.Gaining .done w := by
  refine ⟨hw.memory.reduction, .inr ⟨hw.plain.2, ?_, hw.parameter, .inl ⟨hw.plain.1, ?_⟩⟩⟩
  · rw [hs.length_eq]
    exact norm_nonneg _
  · rw [hs.energy_eq]
    simpa using hs.solves.posDef.posSemidef.dotProduct_mulVec_nonneg (coords w.step)

theorem gaining_solve (hw : t.Gaining .solve w) : t.Gaining (t.solve w).1 (t.solve w).2 := by
  obtain ⟨l, hfactor, hl⟩ := Positive.factor hw
  obtain ⟨w', hnext, hs, hmemory, hparameter, hfactor', hspecial, hstuck⟩ :=
    solve_spec hfactor hl
  have hw' : t.Positive w' := by
    refine ⟨?_, ?_, ?_, l, hfactor', ?_⟩
    · rw [hspecial, hstuck]
      exact hw.plain
    · rw [hmemory]
      exact ⟨hw.memory.reduction, hw.memory.low, hw.memory.high⟩
    · rw [hparameter]
      exact hw.parameter
    · rw [hparameter]
      exact hl
  rcases hnext with hnext | ⟨hnext, hshort⟩ | hnext <;> rw [hnext]
  · exact hw'.gaining hs
  · exact ⟨hw', hs, hshort⟩
  · exact ⟨hw', hs⟩

theorem gaining_checkSpecial (hw : t.Gaining .checkSpecial w) :
    t.Gaining (t.checkSpecial w).1 (t.checkSpecial w).2 := by
  obtain ⟨hw, hs, hshort⟩ := hw
  obtain ⟨l, hfactor, hl⟩ := hw.factor
  rcases checkSpecial_spec hfactor hl hs hshort with
    ⟨w', hnext, hstretched, hspecial, hstuck, hparameter, hmemory⟩ | hnext | ⟨v, -, hnext⟩
  · rw [hnext]
    refine ⟨?_, .inr ⟨hstuck.trans hw.plain.2, ?_, ?_, .inr ⟨hspecial, hstretched⟩⟩⟩
    · rw [hmemory]
      exact hw.memory.reduction
    · rw [hstretched.length_eq]
      exact norm_nonneg _
    · rw [hparameter]
      exact hw.parameter
  · rw [hnext]
    exact ⟨hw, hs⟩
  · rw [hnext]
    exact ⟨⟨hw.plain, nonneg_raiseLow hw.memory v, hw.parameter, hw.factor⟩,
      ⟨hs.solves, hs.length_eq, hs.energy_eq, hs.excess_eq⟩⟩

theorem gaining_update (hw : t.Gaining .update w) :
    t.Gaining (t.update w).1 (t.update w).2 := by
  obtain ⟨hw, hs⟩ := hw
  have hm : (updateMemory w).Nonneg := by
    unfold updateMemory
    split
    · exact ⟨hw.memory.reduction, hw.memory.low, le_min hw.memory.high hw.parameter⟩
    · exact hw.memory
  obtain ⟨-, heq⟩ | ⟨-, heq | heq⟩ := t.update_cases w
  · rw [heq]
    exact hw.gaining hs
  · rw [heq]
    exact ⟨hw.plain, hm⟩
  · rw [heq]
    refine gaining_hebden ?_ ?_
    · exact hw.plain
    · exact hm

theorem transition_gaining {phase : Phase} (hw : t.Gaining phase w) :
    t.Gaining (t.transition phase w).1 (t.transition phase w).2 := by
  cases phase with
  | freshStart => exact ⟨hw, le_refl 0⟩
  | tryNewton => exact gaining_tryNewton hw
  | bracket => exact ⟨hw.1, nonneg_bracketMemory hw.2⟩
  | restart => exact gaining_restart hw
  | shift => exact gaining_shift hw
  | solve => exact gaining_solve hw
  | checkSpecial => exact gaining_checkSpecial hw
  | update => exact gaining_update hw
  | done => exact hw

theorem run_gaining (phase : Phase) (hw : t.Gaining phase w) : t.Gaining .done (t.run phase w) :=
  t.run_invariant transition_gaining hw

end StepTask

variable {c : Config ℝ} {h : Symmetric ℝ n} {g d : Vector ℝ n}

theorem stretchLoss_le_one (hc : c.validate n = .ok ()) (he : c.epsilonStep ≤ 1) :
    stretchLoss c ≤ 1 := by
  obtain ⟨-, ⟨hphi, -⟩, -⟩ := Config.ranges_of_validate hc
  rw [stretchLoss, div_le_one (by linarith)]
  linarith

theorem StepTask.Stretched.reduction_nonneg {t : StepTask ℝ n} {w : StepWork ℝ n}
    (hw : t.Stretched w) (hparameter : 0 ≤ w.parameter) (hloss : t.loss ≤ 1) :
    predicted t.hessian t.gradient (coords w.step) ≤ 0 := by
  obtain ⟨s, v, hs, hstep, hsmall⟩ := hw.base
  have hreaches := hw.reaches
  rw [hstep] at hreaches ⊢
  have hbest := hs.loss_le hparameter hreaches hloss hsmall (v := 0)
    (by simpa using mul_self_nonneg t.radius)
  rw [predicted_zero] at hbest
  linarith

/-- Whatever the memory was made for, a step foretells no increase, unless the loss allowed to
it is larger than its gain. -/
theorem trustStep_nonneg (radius : ℝ) {m : StepMemory ℝ n} (hm : 0 ≤ m.newtonReduction) :
    0 ≤ (trustStep c h g d radius m).1.length ∧
      0 ≤ (trustStep c h g d radius m).2.newtonReduction ∧
      (stretchLoss c ≤ 1 → 0 ≤ (trustStep c h g d radius m).1.reduction) := by
  have hloss := loss_ofModel (h := h) (g := g) (d := d) (c := c) radius
  have hstart : (StepTask.ofModel h g d radius c).Gaining
      (if m.isFresh then .freshStart else .restart) (.start m) := by
    cases m.isFresh with
    | true => exact ⟨rfl, rfl⟩
    | false => exact ⟨⟨rfl, rfl⟩, hm⟩
  have hdone := StepTask.run_gaining _ hstart
  unfold trustStep StepTask.finish
  dsimp only
  generalize (StepTask.ofModel h g d radius c).run _ _ = w at hdone ⊢
  obtain ⟨hreduction, hstuck | ⟨hstuck, hlength, hparameter, hkind⟩⟩ := hdone
  · rw [if_pos hstuck]
    exact ⟨le_refl 0, hreduction, fun _ => le_refl 0⟩
  · rw [if_neg (by simp [hstuck])]
    refine ⟨hlength, hreduction, fun hsmall => ?_⟩
    dsimp only
    rcases hkind with ⟨hspecial, henergy⟩ | ⟨hspecial, hstretched⟩
    · rw [if_neg (by simp [hspecial])]
      have hsquare := mul_nonneg (mul_nonneg hparameter hlength) hlength
      linarith
    · rw [if_pos hspecial, inner_eq, Symmetric.quadraticForm_eq]
      rw [← hloss] at hsmall
      exact neg_nonneg.mpr (hstretched.reduction_nonneg hparameter hsmall)

end LeastSquares
