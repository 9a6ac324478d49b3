import LeastSquares.Proofs.TrustStep.Enclosed

namespace LeastSquares

open Matrix

variable {n : Nat}

/-- What a memory carries over to another radius for every model, also for one that was taken for
singular. -/
structure StepMemory.Carries (m : StepMemory ℝ n) (h : Symmetric ℝ n) (g : Vector ℝ n) :
    Prop where
  circles : ∀ b, m.circles = some b → b = h.gershgorin
  gradientNorm : m.gradientNorm = Geometry.norm g
  slope_nonneg : 0 ≤ m.newtonSlope
  slope : 0 < m.newtonLength → ∀ b s, 0 ≤ b → Solves h g b s →
    (m.newtonLength - Geometry.norm s) * m.newtonSlope ≤ b
  last : ∀ f, m.last = some f → (h.addToDiagonal f.parameter).cholesky = .ok f.factor ∧
    Solves h g f.parameter f.step ∧ f.length = Geometry.norm f.step

namespace StepTask

def Kept (w : StepWork ℝ n) (a : ℝ) : Prop := ∀ f, w.memory.last = some f → f.parameter = a

def Carrying (t : StepTask ℝ n) : Phase → StepWork ℝ n → Prop
  | .freshStart, _ => True
  | .tryNewton, w => w.memory.Carries t.hessian t.gradient ∧ w.memory.newtonSlope = 0
  | .bracket, w | .shift, w | .solve, w => w.memory.Carries t.hessian t.gradient
  | .restart, w => w.memory.Carries t.hessian t.gradient ∧ w.memory.Linked
  | .checkSpecial, w | .update, w => w.memory.Carries t.hessian t.gradient ∧ Kept w w.parameter
  | .done, w => w.memory.Carries t.hessian t.gradient ∧ (w.parameter = 0 ∨ Kept w |w.parameter|)

variable {t : StepTask ℝ n} {m : StepMemory ℝ n} {w : StepWork ℝ n}

section

variable (hm : m.Carries t.hessian t.gradient)
include hm

theorem carries_widen : m.widen.Carries t.hessian t.gradient := by
  rw [StepMemory.widen]
  split
  · exact { hm with }
  · exact hm

theorem carries_raiseLow (v : ℝ) : (m.raiseLow v).Carries t.hessian t.gradient := { hm with }

theorem carries_bracketMemory : (t.bracketMemory m).Carries t.hessian t.gradient := by
  apply carries_widen
  refine { hm with circles := fun b hb => ?_ }
  cases hc : m.circles with
  | none =>
    rw [hc] at hb
    exact (Option.some.inj hb).symm
  | some e =>
    rw [hc] at hb
    exact (Option.some.inj hb).symm.trans (hm.circles e hc)

theorem carries_restartMemory : (t.restartMemory m).Carries t.hessian t.gradient := by
  apply carries_bracketMemory
  split
  · exact { hm with }
  · exact { hm with }

theorem carries_cutByLast (last : Factored ℝ n) :
    (t.cutByLast m last).Carries t.hessian t.gradient := by
  apply carries_widen
  split
  · exact carries_raiseLow hm _
  · split
    · exact { hm with }
    · exact hm

end

theorem carries_hebden (hm : w.memory.Carries t.hessian t.gradient) :
    (t.hebden w).2.memory.Carries t.hessian t.gradient := by
  obtain heq | ⟨parameter, heq⟩ := t.hebden_cases w
  · rw [heq]
    exact hm
  · rw [heq]
    exact carries_raiseLow hm parameter

theorem freshStart_carries : (t.freshStart w).2.memory.Carries t.hessian t.gradient where
  circles := nofun
  gradientNorm := rfl
  slope_nonneg := le_refl 0
  slope hpos := absurd hpos (lt_irrefl 0)
  last := nofun

theorem tryNewton_carrying (hw : t.Carrying .tryNewton w) :
    t.Carrying (t.tryNewton w).1 (t.tryNewton w).2 := by
  obtain ⟨hm, hslope⟩ := hw
  have hflat (b length : ℝ) (s : Vector ℝ n) (hb : 0 ≤ b) :
      (length - Geometry.norm s) * w.memory.newtonSlope ≤ b := by
    rwa [hslope, mul_zero]
  obtain ⟨e, -, heq⟩ | ⟨l, hl, ⟨-, heq⟩ | ⟨-, s, energy, heqn, -, ⟨-, heq⟩ | ⟨-, heq⟩⟩⟩ :=
    t.tryNewton_cases w
  · rw [heq]
    exact { hm with slope := fun _ b s hb _ => hflat b _ s hb }
  · rw [heq]
    exact { hm with slope := fun _ b s hb _ => hflat b _ s hb }
  · rw [heq]
    exact ⟨{ hm with slope := fun _ b u hb _ => hflat b _ u hb }, .inl rfl⟩
  · have hs := Symmetric.solves_of_cholesky hl heqn
    have hv := Lower.solve_eq_ok (Symmetric.cholesky_positiveDiagonal hl) s
    rw [← t.hessian.addToDiagonal_zero] at hl
    rw [heq]
    refine ⟨hm.circles, hm.gradientNorm, div_nonneg (norm_nonneg s) (mul_self_nonneg _),
      fun _ b u hb hu => hs.slope_le hu hl hv hb, fun f hf => ?_⟩
    obtain rfl := Option.some.inj hf
    exact ⟨hl, hs, rfl⟩

theorem restart_carrying (hw : t.Carrying .restart w) :
    t.Carrying (t.restart w).1 (t.restart w).2 := by
  obtain ⟨hm, hlink⟩ := hw
  have hm' : StepMemory.Carries { w.memory with count := 0 } t.hessian t.gradient := { hm with }
  obtain ⟨s, -, -, -, heq⟩ | ⟨-, ⟨last, -, heq⟩ | heq⟩ := t.restart_cases w
  · rw [heq]
    exact ⟨hm', .inl rfl⟩
  · rw [heq, (t.hebden_next _).1]
    exact carries_hebden (carries_cutByLast (carries_restartMemory hm') last)
  · rw [heq]
    exact carries_restartMemory hm'

theorem shift_carrying (hv : t.Valid) (hh : t.Holds .shift w)
    (hm : w.memory.Carries t.hessian t.gradient) : t.Carrying (t.shift w).1 (t.shift w).2 := by
  obtain ⟨-, hbracketed, hcount⟩ := hh
  obtain ⟨hgiven, -⟩ | ⟨-, a, -, ⟨l, -, heq⟩ | ⟨e, -, heq⟩⟩ := t.shift_cases w
  · exact absurd hgiven (not_ceiling_lt hv hcount)
  · rw [heq]
    exact { hm with }
  · rw [heq]
    apply carries_widen
    refine { hm with slope := fun hpos => absurd hpos (not_lt.mpr (neg_nonpos.mpr ?_)) }
    exact hbracketed.low_nonneg.trans (le_max_left _ _)

theorem solve_carrying (hh : t.Holds .solve w) (hm : w.memory.Carries t.hessian t.gradient) :
    t.Carrying (t.solve w).1 (t.solve w).2 := by
  obtain ⟨l, hfactor, hl⟩ := Shifted.factor hh
  obtain ⟨w', hnext, hs, hmemory, hparameter, -⟩ := solve_spec hfactor hl
  have hkept : Kept w' w'.parameter := by
    intro f hf
    rw [hmemory] at hf
    obtain rfl := Option.some.inj hf
    exact hparameter.symm
  have hm' : w'.memory.Carries t.hessian t.gradient := by
    rw [hmemory]
    refine { hm with last := fun f hf => ?_ }
    obtain rfl := Option.some.inj hf
    exact ⟨hl, hparameter ▸ hs.solves, hs.length_eq⟩
  obtain hnext | ⟨hnext, -⟩ | hnext := hnext <;> rw [hnext]
  · refine ⟨hm', .inr ?_⟩
    rw [hparameter, abs_of_nonneg (Shifted.parameter_nonneg hh), ← hparameter]
    exact hkept
  · exact ⟨hm', hkept⟩
  · exact ⟨hm', hkept⟩

theorem checkSpecial_carrying (hh : t.Holds .checkSpecial w) (hw : t.Carrying .checkSpecial w) :
    t.Carrying (t.checkSpecial w).1 (t.checkSpecial w).2 := by
  obtain ⟨hshifted, hs, hshort⟩ := hh
  obtain ⟨hm, hkept⟩ := hw
  obtain ⟨l, hfactor, hl⟩ := hshifted.factor
  obtain ⟨w', hnext, -, -, -, hparameter, hmemory⟩ | hnext | ⟨v, -, hnext⟩ :=
    checkSpecial_spec hfactor hl hs hshort <;> rw [hnext]
  · refine ⟨hmemory ▸ hm, .inr fun f hf => ?_⟩
    rw [hparameter, abs_of_nonneg hshifted.parameter_nonneg]
    exact hkept f (hmemory ▸ hf)
  · exact ⟨hm, hkept⟩
  · exact ⟨carries_raiseLow hm v, hkept⟩

theorem update_carrying (hh : t.Holds .update w) (hw : t.Carrying .update w) :
    t.Carrying (t.update w).1 (t.update w).2 := by
  obtain ⟨hm, hkept⟩ := hw
  have hm' : (updateMemory w).Carries t.hessian t.gradient := by
    rw [updateMemory]
    split
    · exact { hm with }
    · exact hm
  obtain ⟨-, heq⟩ | ⟨-, heq | heq⟩ := t.update_cases w
  · rw [heq]
    refine ⟨hm, .inr ?_⟩
    rw [abs_of_nonneg hh.1.parameter_nonneg]
    exact hkept
  · rw [heq]
    exact hm'
  · rw [heq, (t.hebden_next _).1]
    exact carries_hebden (w := { w with memory := updateMemory w }) hm'

theorem transition_carrying (hv : t.Valid) {phase : Phase} (hh : t.Holds phase w)
    (hw : t.Carrying phase w) : t.Carrying (t.transition phase w).1 (t.transition phase w).2 := by
  cases phase with
  | freshStart => exact ⟨freshStart_carries, rfl⟩
  | tryNewton => exact tryNewton_carrying hw
  | bracket => exact carries_bracketMemory hw
  | restart => exact restart_carrying hw
  | shift => exact shift_carrying hv hh hw
  | solve => exact solve_carrying hh hw
  | checkSpecial => exact checkSpecial_carrying hh hw
  | update => exact update_carrying hh hw
  | done => exact hw

/-- What holds before each phase, of the step and of what the memory carries. -/
structure Sustained (t : StepTask ℝ n) (phase : Phase) (w : StepWork ℝ n) : Prop where
  holds : t.Holds phase w
  carrying : t.Carrying phase w

theorem transition_sustained (hv : t.Valid) {phase : Phase} (hw : t.Sustained phase w) :
    t.Sustained (t.transition phase w).1 (t.transition phase w).2 :=
  ⟨transition_holds hv hw.holds, transition_carrying hv hw.holds hw.carrying⟩

theorem finish_carries (hw : t.Sustained .done w) :
    (t.finish w).2.Carries t.hessian t.gradient ∧ (t.finish w).2.Linked := by
  obtain ⟨hm, hparameter⟩ := hw.carrying
  refine ⟨?_, finish_linked (.inr hparameter)⟩
  rw [finish, if_neg (by simp [hw.holds.unstuck])]
  exact { hm with }

end StepTask

section

variable {c : Config ℝ} {h : Symmetric ℝ n} {g d : Vector ℝ n} {m : StepMemory ℝ n}

theorem StepMemory.Fits.sustained (hfits : m.Fits h g d)
    (hm : m.isFresh = false →
      m.Carries (h.diagonallyScaled d) (overEach g d) ∧ m.Linked) (radius : ℝ) :
    (StepTask.ofModel h g d radius c).Sustained
      (if m.isFresh then .freshStart else .restart) (.start m) := by
  refine ⟨hfits.holds radius, ?_⟩
  cases hfresh : m.isFresh with
  | true => trivial
  | false => exact hm hfresh

theorem StepMemory.Serves.carries (hc : c.validate n = .ok ())
    (hlimit : c.hebdenIterationLimit < 2 ^ 30) (hm : m.Serves c h g d)
    (hstale : m.isFresh = false) :
    m.Carries (h.diagonallyScaled d) (overEach g d) ∧ m.Linked := by
  apply hm.keeps _ hstale
  intro m radius hm hr ih _
  have hstart := (hm.fits hc hlimit).sustained (c := c) ih radius
  exact StepTask.finish_carries
    (StepTask.run_invariant _ (StepTask.transition_sustained (valid_ofModel hc hlimit hr)) hstart)

end

end LeastSquares
