import LeastSquares.Proofs.TrustStep.Invariant
import LeastSquares.Proofs.TrustStep.Secular

namespace LeastSquares

open Matrix

variable {n : Nat}

namespace StepTask

variable {t : StepTask ℝ n} {w : StepWork ℝ n}

theorem Stepped.norm_lt (hs : t.Stepped w) (hshort : w.excess < 0) :
    Geometry.norm w.step < t.radius := by
  rw [hs.excess_eq, hs.length_eq] at hshort
  linarith

theorem Stepped.parameter_pos (hs : t.Stepped w) (hw : t.Shifted w) (hshort : w.excess < 0) :
    0 < w.parameter := by
  rcases hw.parameter with hpos | ⟨hzero, hnewton⟩
  · exact hpos
  · exfalso
    obtain ⟨s, -, hsolves, hlength, -⟩ := hw.bracketed.remembers.newton hnewton
    have hbeyond := hw.bracketed.beyond hnewton
    have hsame : w.step = s := Solves.unique (hzero ▸ hs.solves) hsolves
    rw [hs.excess_eq, hs.length_eq, hsame, ← hlength] at hshort
    linarith

theorem Shifted.parameter_nonneg (hw : t.Shifted w) : 0 ≤ w.parameter := by
  rcases hw.parameter with hpos | ⟨hzero, -⟩
  · exact hpos.le
  · exact hzero.ge

theorem Shifted.ended (hw : t.Shifted w) (hs : t.Stepped w) : t.Ended w where
  remembers := hw.bracketed.remembers
  unstuck := hw.plain.2
  plain _ := ⟨hw.parameter_nonneg, hs.solves, hs.length_eq, hs.energy_eq⟩
  special h := by simp [hw.plain.1] at h

theorem solve_spec {l : Lower ℝ n} (hfactor : w.factor = some l)
    (hl : (t.hessian.addToDiagonal w.parameter).cholesky = .ok l) :
    ∃ w', (t.solve w = (.done, w') ∨ t.solve w = (.checkSpecial, w') ∧ w'.excess < 0 ∨
        t.solve w = (.update, w')) ∧ t.Stepped w' ∧
      w'.memory = { w.memory with last := some ⟨w.parameter, l, w'.step, w'.length⟩ } ∧
      w'.parameter = w.parameter ∧ w'.factor = some l ∧ w'.special = w.special ∧
      w'.stuck = w.stuck := by
  obtain ⟨q, s, hstep, heq, henergy⟩ := Lower.newtonStep_spec hl t.gradient
  have hstepped (w' : StepWork ℝ n) (hparameter : w'.parameter = w.parameter)
      (hs : w'.step = s) (hlength : w'.length = Geometry.norm s) (hq : w'.energy = normSq q)
      (hexcess : w'.excess = Geometry.norm s - t.radius) : t.Stepped w' := by
    refine ⟨?_, ?_, ?_, ?_⟩
    · rw [hparameter, hs]
      exact ⟨Symmetric.posDef_of_cholesky hl, heq⟩
    · rw [hlength, hs]
    · rw [hq, hs, hparameter, henergy]
    · rw [hexcess, hlength]
  unfold solve
  rw [hfactor]
  dsimp only
  rw [hstep]
  dsimp only
  split
  · exact ⟨_, .inl rfl, hstepped _ rfl rfl rfl rfl rfl, rfl, rfl, rfl, rfl, rfl⟩
  · split
    · exact ⟨_, .inl rfl, hstepped _ rfl rfl rfl rfl rfl, rfl, rfl, rfl, rfl, rfl⟩
    · split
      · next hshort =>
        exact ⟨_, .inr (.inl ⟨rfl, hshort⟩), hstepped _ rfl rfl rfl rfl rfl, rfl, rfl, rfl,
          rfl, rfl⟩
      · exact ⟨_, .inr (.inr rfl), hstepped _ rfl rfl rfl rfl rfl, rfl, rfl, rfl, rfl, rfl⟩

/-- A short step is stretched to the radius, or the bracket is made smaller, by nothing that a
positive definite shift could be below. -/
theorem checkSpecial_spec {l : Lower ℝ n} (hfactor : w.factor = some l)
    (hl : (t.hessian.addToDiagonal w.parameter).cholesky = .ok l) (hs : t.Stepped w)
    (hshort : w.excess < 0) :
    (∃ w', t.checkSpecial w = (.done, w') ∧ t.Stretched w' ∧ w'.special = true ∧
      w'.stuck = w.stuck ∧ w'.parameter = w.parameter ∧ w'.memory = w.memory) ∨
    t.checkSpecial w = (.update, w) ∨
      ∃ v, (∀ b, (t.hessian.addToDiagonal b).matrix.PosDef → v ≤ b) ∧
        t.checkSpecial w = (.update, { w with memory := w.memory.raiseLow v }) := by
  unfold checkSpecial
  rw [hfactor]
  dsimp only
  split
  · exact .inr (.inl rfl)
  · next v hv =>
    split
    · exact .inr (.inl rfl)
    · next hr =>
      rw [beq_iff] at hr
      obtain ⟨hunit, hform⟩ := Lower.quadraticForm_unit hl hv hr
      have hreaches := t.stretch_spec hunit (hs.norm_lt hshort)
      rw [← hs.length_eq] at hreaches
      generalize v.map (· / Geometry.norm v) = z at hunit hform hreaches ⊢
      split
      · next hsmall =>
        have hstep : coords (w.step + z.map (· * t.stretch w.step z w.length)) =
            coords w.step + t.stretch w.step z w.length • coords z := by
          rw [coords_add, coords_map_mul]
        refine .inl ⟨_, rfl, ⟨rfl, ?_, w.step, _, hs.solves, hstep, ?_⟩, rfl, rfl, rfl, rfl⟩
        · rw [hstep]
          exact hreaches
        · rw [mulVec_smul, smul_dotProduct, dotProduct_smul, hform, ← hs.energy_eq]
          simp only [smul_eq_mul]
          linarith
      · refine .inr (.inr ⟨_, fun b hb => ?_, rfl⟩)
        have hne : coords z ≠ 0 := by
          intro hzero
          rw [hzero, zero_dotProduct] at hunit
          exact zero_ne_one hunit
        have hlt := Symmetric.sub_curvature_lt hb hne w.parameter
        rw [hunit, hform, div_one] at hlt
        exact hlt.le

theorem solve_holds (hw : t.Holds .solve w) : t.Holds (t.solve w).1 (t.solve w).2 := by
  obtain ⟨l, hfactor, hl⟩ := Shifted.factor hw
  obtain ⟨w', hnext, hs, hmemory, hparameter, hfactor', hspecial, hstuck⟩ :=
    solve_spec hfactor hl
  have hw' : t.Shifted w' := by
    refine ⟨?_, ?_, ?_, ?_, l, hfactor', ?_⟩
    · rw [hspecial, hstuck]
      exact hw.plain
    · rw [hmemory]
      exact hw.bracketed.withLast _
    · rw [hmemory]
      exact hw.count_le
    · rw [hparameter, hmemory]
      exact hw.parameter
    · rw [hparameter]
      exact hl
  rcases hnext with hnext | ⟨hnext, hshort⟩ | hnext <;> rw [hnext]
  · exact hw'.ended hs
  · exact ⟨hw', hs, hshort⟩
  · exact ⟨hw', hs⟩

theorem checkSpecial_holds (hw : t.Holds .checkSpecial w) :
    t.Holds (t.checkSpecial w).1 (t.checkSpecial w).2 := by
  obtain ⟨hw, hs, hshort⟩ := hw
  obtain ⟨l, hfactor, hl⟩ := hw.factor
  rcases checkSpecial_spec hfactor hl hs hshort with
    ⟨w', hnext, hstretched, hspecial, hstuck, hparameter, hmemory⟩ | hnext | ⟨v, -, hnext⟩
  · rw [hnext]
    refine ⟨?_, hstuck.trans hw.plain.2, fun h => ?_, fun _ => ⟨?_, hstretched⟩⟩
    · rw [hmemory]
      exact hw.bracketed.remembers
    · rw [hspecial] at h
      cases h
    · rw [hparameter]
      exact hs.parameter_pos hw hshort
  · rw [hnext]
    exact ⟨hw, hs⟩
  · rw [hnext]
    exact ⟨⟨hw.plain, hw.bracketed.raiseLow v, hw.count_le, hw.parameter, hw.factor⟩,
      ⟨hs.solves, hs.length_eq, hs.energy_eq, hs.excess_eq⟩⟩

theorem update_holds (hw : t.Holds .update w) : t.Holds (t.update w).1 (t.update w).2 := by
  obtain ⟨hw, hs⟩ := hw
  have hm : t.Bracketed (updateMemory w) := by
    unfold updateMemory
    split
    · next hshort => exact hw.bracketed.cutHigh (hs.parameter_pos hw hshort)
    · exact hw.bracketed
  obtain ⟨-, heq⟩ | ⟨hbefore, hcases⟩ := t.update_cases w
  · rw [heq]
    exact hw.ended hs
  · have hcount : (updateMemory w).count ≤ t.limit := by
      rw [updateMemory_count]
      omega
    obtain heq | heq := hcases
    · rw [heq]
      exact ⟨hw.plain, hm, hcount⟩
    · rw [heq]
      refine hebden_holds ?_ ?_ ?_
      · exact hw.plain
      · exact hm
      · exact hcount

theorem transition_holds (hv : t.Valid) {phase : Phase} (hw : t.Holds phase w) :
    t.Holds (t.transition phase w).1 (t.transition phase w).2 := by
  cases phase with
  | freshStart => exact freshStart_holds hw
  | tryNewton => exact tryNewton_holds hv hw
  | bracket => exact bracket_holds hv hw
  | restart => exact restart_holds hv hw
  | shift => exact shift_holds hv hw
  | solve => exact solve_holds hw
  | checkSpecial => exact checkSpecial_holds hw
  | update => exact update_holds hw
  | done => exact hw

theorem Stretched.norm_eq (hr : 0 < t.radius) (hw : t.Stretched w) : w.length = t.radius := by
  rw [hw.length_eq, LeastSquares.norm_eq, hw.reaches]
  exact Real.sqrt_mul_self hr.le

theorem Ended.finish_step (hw : t.Ended w) :
    (t.finish w).1.step = overEach w.step t.d ∧ (t.finish w).1.length = w.length ∧
      (t.finish w).1.parameter = if w.special then -w.parameter else w.parameter := by
  rw [finish, if_neg (by simp [hw.unstuck])]
  exact ⟨rfl, rfl, rfl⟩

theorem Ended.finish_model (hw : t.Ended w) :
    (t.finish w).1.slope = coords t.gradient ⬝ᵥ coords w.step ∧
      (t.finish w).1.reduction = -predicted t.hessian t.gradient (coords w.step) := by
  rw [finish, if_neg (by simp [hw.unstuck])]
  cases hspecial : w.special with
  | true =>
    refine ⟨inner_eq _ _, ?_⟩
    dsimp only
    rw [if_pos rfl, inner_eq, Symmetric.quadraticForm_eq]
    rfl
  | false =>
    obtain ⟨-, hsolves, hlength, henergy⟩ := hw.plain hspecial
    refine ⟨inner_eq _ _, ?_⟩
    dsimp only
    rw [if_neg (by decide), henergy, hlength, hsolves.predicted_self, neg_neg, ← norm_mul_self]
    ring

theorem Ended.finish_remembers (hw : t.Ended w) :
    (t.finish w).2.Remembers t.hessian t.gradient := by
  rw [finish, if_neg (by simp [hw.unstuck])]
  exact ⟨hw.remembers.circles, hw.remembers.newton⟩

theorem Ended.parameter_neg_iff (hw : t.Ended w) :
    (t.finish w).1.parameter < 0 ↔ w.special = true := by
  rw [hw.finish_step.2.2]
  cases hspecial : w.special with
  | true => simpa using (hw.special hspecial).1
  | false => simpa using (hw.plain hspecial).1

theorem run_ended (hv : t.Valid) (phase : Phase) (hw : t.Holds phase w) :
    t.Ended (t.run phase w) :=
  t.run_invariant (transition_holds hv) hw

end StepTask

end LeastSquares
