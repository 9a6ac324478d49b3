import LeastSquares.Proofs.TrustStep.Halted
import LeastSquares.Proofs.TrustStep.Outcome
import LeastSquares.Proofs.TrustStep.Scaled
import LeastSquares.Proofs.Validated

namespace LeastSquares

open Matrix

variable {n : Nat} {c : Config ℝ} {h : Symmetric ℝ n} {g d : Vector ℝ n}

/-- The relative loss that is allowed along a direction of little curvature. -/
noncomputable def stretchLoss (c : Config ℝ) : ℝ :=
  2 * c.epsilonStep / (3 * (4 * (1 + c.phiMin) * 3 + 4))

theorem stretchLoss_nonneg (hc : c.validate n = .ok ()) : 0 ≤ stretchLoss c := by
  obtain ⟨-, ⟨hphi, -⟩, -⟩ := Config.ranges_of_validate hc
  have hstep : 0 < c.epsilonStep := Config.pos_of_validate hc (f := .epsilonStep) (by decide)
  exact div_nonneg (by linarith) (by linarith)

theorem loss_ofModel (radius : ℝ) : (StepTask.ofModel h g d radius c).loss = stretchLoss c := by
  change 2 * c.epsilonStep / (3 * (4 * (1 + c.phiMin) * (2 + 1) + 2 + 2)) = _
  rw [stretchLoss]
  norm_num [add_assoc]

theorem valid_ofModel (hc : c.validate n = .ok ()) (hlimit : c.hebdenIterationLimit < 2 ^ 30)
    {radius : ℝ} (hr : 0 < radius) : (StepTask.ofModel h g d radius c).Valid := by
  obtain ⟨-, ⟨-, -, hmax⟩, -, hpos⟩ := Config.ranges_of_validate hc
  have hcount := limit_ofModel hlimit h g d radius
  have hceiling := ceiling_ofModel hlimit h g d radius
  exact ⟨hr, mul_nonneg hmax hr.le, by omega, by omega⟩

theorem default_hebdenLimit : (Config.default : Config ℝ).hebdenIterationLimit < 2 ^ 30 := by
  norm_num [Config.default]

/-- The memories of a model: a fresh one, and those its calls leave, whatever their radii. -/
inductive StepMemory.Serves (c : Config ℝ) (h : Symmetric ℝ n) (g d : Vector ℝ n) :
    StepMemory ℝ n → Prop where
  | fresh {m : StepMemory ℝ n} : m.isFresh = true → Serves c h g d m
  | after {m : StepMemory ℝ n} {radius : ℝ} : Serves c h g d m → 0 < radius →
      Serves c h g d (trustStep c h g d radius m).2

theorem StepMemory.Serves.keeps {P : StepMemory ℝ n → Prop} {m : StepMemory ℝ n}
    (hafter : ∀ {m : StepMemory ℝ n} {radius : ℝ}, m.Serves c h g d → 0 < radius →
      (m.isFresh = false → P m) → (trustStep c h g d radius m).2.isFresh = false →
        P (trustStep c h g d radius m).2)
    (hm : m.Serves c h g d) (hstale : m.isFresh = false) : P m := by
  induction hm with
  | fresh hfresh =>
    rw [hfresh] at hstale
    cases hstale
  | after hm hr ih => exact hafter hm hr ih hstale

def StepMemory.Fits (m : StepMemory ℝ n) (h : Symmetric ℝ n) (g d : Vector ℝ n) : Prop :=
  m.isFresh = false → m.Remembers (h.diagonallyScaled d) (overEach g d)

theorem StepMemory.Fits.holds {m : StepMemory ℝ n} (hm : m.Fits h g d) (radius : ℝ) :
    (StepTask.ofModel h g d radius c).Holds
      (if m.isFresh then .freshStart else .restart) (.start m) := by
  cases hfresh : m.isFresh with
  | true => exact ⟨rfl, rfl⟩
  | false => exact ⟨⟨rfl, rfl⟩, hm hfresh⟩

section

variable (hc : c.validate n = .ok ()) (hlimit : c.hebdenIterationLimit < 2 ^ 30)
  {m : StepMemory ℝ n} {radius : ℝ}
include hc hlimit

theorem ended_of_fits (hm : m.Fits h g d) (hr : 0 < radius) :
    (StepTask.ofModel h g d radius c).Ended ((StepTask.ofModel h g d radius c).run
      (if m.isFresh then .freshStart else .restart) (.start m)) :=
  StepTask.run_ended (valid_ofModel hc hlimit hr) _ (hm.holds radius)

theorem trustStep_fits (hm : m.Fits h g d) (hr : 0 < radius) :
    (trustStep c h g d radius m).2.Fits h g d := by
  intro _
  exact (ended_of_fits hc hlimit hm hr).finish_remembers

theorem StepMemory.Serves.fits (hm : m.Serves c h g d) : m.Fits h g d :=
  hm.keeps fun _ hr ih => trustStep_fits hc hlimit ih hr

theorem trustStep_plain (hm : m.Fits h g d) (hr : 0 < radius)
    (hp : 0 ≤ (trustStep c h g d radius m).1.parameter) :
    ∃ s, (trustStep c h g d radius m).1.step = overEach s d ∧
      (trustStep c h g d radius m).1.length = Geometry.norm s ∧
      Solves (h.diagonallyScaled d) (overEach g d) (trustStep c h g d radius m).1.parameter s := by
  have hended := ended_of_fits hc hlimit hm hr
  obtain ⟨hstep, hlength, hparameter⟩ := hended.finish_step
  have hplain := mt hended.parameter_neg_iff.mpr (not_lt.mpr hp)
  obtain ⟨-, hsolves, hnorm, -⟩ := hended.plain (Bool.eq_false_of_not_eq_true hplain)
  rw [if_neg hplain] at hparameter
  exact ⟨_, hstep, hlength.trans hnorm, hparameter ▸ hsolves⟩

theorem trustStep_stretched (hm : m.Fits h g d) (hr : 0 < radius)
    (hp : (trustStep c h g d radius m).1.parameter < 0) :
    ∃ (s s₀ : Vector ℝ n) (v : Fin n → ℝ),
      (trustStep c h g d radius m).1.step = overEach s d ∧
      (trustStep c h g d radius m).1.length = Geometry.norm s ∧ Geometry.norm s = radius ∧
      (trustStep c h g d radius m).1.reduction =
        -predicted (h.diagonallyScaled d) (overEach g d) (coords s) ∧
      coords s = coords s₀ + v ∧
      Solves (h.diagonallyScaled d) (overEach g d) (-(trustStep c h g d radius m).1.parameter) s₀ ∧
      v ⬝ᵥ ((h.diagonallyScaled d).addToDiagonal
        (-(trustStep c h g d radius m).1.parameter)).matrix *ᵥ v ≤ stretchLoss c *
        (coords s₀ ⬝ᵥ ((h.diagonallyScaled d).addToDiagonal
          (-(trustStep c h g d radius m).1.parameter)).matrix *ᵥ coords s₀
          + -(trustStep c h g d radius m).1.parameter * radius * radius) := by
  have hended := ended_of_fits hc hlimit hm hr
  obtain ⟨hstep, hlength, hparameter⟩ := hended.finish_step
  have hspecial := hended.parameter_neg_iff.mp hp
  have hstretched := (hended.special hspecial).2
  have hradius := hstretched.norm_eq hr
  have hshift := neg_eq_iff_eq_neg.mp (hparameter.trans (if_pos hspecial)).symm
  obtain ⟨hnorm, -, s₀, v, hsolves, hadd, hsmall⟩ := hstretched
  rw [hshift] at hsolves hsmall
  rw [loss_ofModel] at hsmall
  exact ⟨_, s₀, v, hstep, hlength.trans hnorm, hnorm.symm.trans hradius, hended.finish_model.2,
    hadd, hsolves, hsmall⟩

theorem trustStep_equation (hd : ∀ i : Fin n, 0 < d[i]) (hm : m.Fits h g d) (hr : 0 < radius) :
    let trial := (trustStep c h g d radius m).1
    let shifted := h.matrix + |trial.parameter| • squaredScale d
    shifted.PosDef ∧ ∃ v, (0 ≤ trial.parameter → v = 0) ∧
      shifted *ᵥ (coords trial.step - v) = -coords g ∧
      v ⬝ᵥ shifted *ᵥ v ≤ stretchLoss c * ((coords trial.step - v) ⬝ᵥ
        shifted *ᵥ (coords trial.step - v) + |trial.parameter| * radius * radius) := by
  intro trial shifted
  rcases le_or_gt 0 trial.parameter with hp | hp
  · have hshifted : shifted = h.matrix + trial.parameter • squaredScale d := by
      rw [← abs_of_nonneg hp]
    obtain ⟨s, hstep, -, hsolves⟩ := trustStep_plain hc hlimit hm hr hp
    have hdef := hsolves.unscaled_posDef hd
    rw [hshifted]
    refine ⟨hdef, 0, fun _ => rfl, ?_, ?_⟩
    · change _ *ᵥ (coords (trustStep c h g d radius m).1.step - 0) = _
      rw [hstep, sub_zero]
      exact hsolves.unscaled_equation hd
    · have henergy := hdef.posSemidef.dotProduct_mulVec_nonneg (coords trial.step)
      rw [star_trivial] at henergy
      rw [zero_dotProduct, sub_zero, abs_of_nonneg hp]
      exact mul_nonneg (stretchLoss_nonneg hc)
        (add_nonneg henergy (mul_nonneg (mul_nonneg hp hr.le) hr.le))
  · have hshifted : shifted = h.matrix + -trial.parameter • squaredScale d := by
      rw [← abs_of_neg hp]
    obtain ⟨s, s₀, v, hstep, -, -, -, hadd, hsolves, hsmall⟩ :=
      trustStep_stretched hc hlimit hm hr hp
    have hunscaled : coords trial.step - v / coords d = coords (overEach s₀ d) := by
      change coords (trustStep c h g d radius m).1.step - _ = _
      rw [hstep, coords_overEach, coords_overEach, hadd]
      funext i
      simp only [Pi.sub_apply, Pi.div_apply, Pi.add_apply]
      ring
    have hform (u : Fin n → ℝ) : (u / coords d) ⬝ᵥ shifted *ᵥ (u / coords d) =
        u ⬝ᵥ ((h.diagonallyScaled d).addToDiagonal (-trial.parameter)).matrix *ᵥ u := by
      have hu : coords d * (u / coords d) = u := by
        funext i
        exact mul_div_cancel₀ _ (coords_ne_zero_of_pos hd i)
      rw [hshifted, shifted_mulVec hd, ← mul_dotProduct, hu]
    refine ⟨?_, v / coords d, fun hnonneg => absurd hp (not_lt.mpr hnonneg), ?_, ?_⟩
    · rw [hshifted]
      exact hsolves.unscaled_posDef hd
    · rw [hunscaled, hshifted]
      exact hsolves.unscaled_equation hd
    · rw [hunscaled, coords_overEach, hform, hform, abs_of_neg hp]
      exact hsmall

theorem trustStep_length (hd : ∀ i : Fin n, 0 < d[i]) (hm : m.Fits h g d) (hr : 0 < radius) :
    (trustStep c h g d radius m).1.length =
      Geometry.norm (timesEach d (trustStep c h g d radius m).1.step) := by
  have hmul (s : Vector ℝ n) : timesEach d (overEach s d) = s := by
    apply coords_injective
    rw [coords_timesEach, mul_coords_overEach hd]
  rcases le_or_gt 0 (trustStep c h g d radius m).1.parameter with hp | hp
  · obtain ⟨s, hstep, hlength, -⟩ := trustStep_plain hc hlimit hm hr hp
    rw [hstep, hmul, hlength]
  · obtain ⟨s, -, -, hstep, hlength, -⟩ := trustStep_stretched hc hlimit hm hr hp
    rw [hstep, hmul, hlength]

/-- A step with a multiplier of the region is the best one of its length, and a step along a
direction of little curvature lacks little of the best one in the region. -/
theorem trustStep_optimal (hd : ∀ i : Fin n, 0 < d[i]) (hm : m.Serves c h g d) (hr : 0 < radius) :
    let trial := (trustStep c h g d radius m).1
    let shifted := h.matrix + trial.parameter • squaredScale d
    trial.length = Geometry.norm (timesEach d trial.step) ∧
    (0 ≤ trial.parameter → shifted.PosDef ∧ shifted *ᵥ coords trial.step = -coords g ∧
      ∀ v : Vector ℝ n, Geometry.norm (timesEach d v) ≤ trial.length →
        predicted h g (coords trial.step) ≤ predicted h g (coords v)) ∧
    (trial.parameter < 0 → trial.length = radius ∧ (stretchLoss c ≤ 1 →
      ∀ v : Vector ℝ n, Geometry.norm (timesEach d v) ≤ radius →
        (1 - stretchLoss c) * -predicted h g (coords v) ≤ trial.reduction)) := by
  intro trial shifted
  have hm := hm.fits hc hlimit
  have hsquares {x y : Vector ℝ n} (hxy : Geometry.norm x ≤ Geometry.norm y) :
      coords x ⬝ᵥ coords x ≤ coords y ⬝ᵥ coords y := by
    rw [← norm_mul_self, ← norm_mul_self]
    exact mul_self_le_mul_self (norm_nonneg x) hxy
  refine ⟨trustStep_length hc hlimit hd hm hr, fun hp => ?_, fun hp => ?_⟩
  · obtain ⟨s, hstep, hnorm, hsolves⟩ := trustStep_plain hc hlimit hm hr hp
    refine ⟨hsolves.unscaled_posDef hd, ?_, fun v hv => ?_⟩
    · change shifted *ᵥ coords (trustStep c h g d radius m).1.step = _
      rw [hstep]
      exact hsolves.unscaled_equation hd
    · have hle := hsquares (hv.trans hnorm.le)
      rw [coords_timesEach] at hle
      have hbest := hsolves.predicted_le hp hle
      rw [predicted_diagonallyScaled hd, ← mul_coords_overEach hd s,
        predicted_diagonallyScaled hd, ← hstep] at hbest
      exact hbest
  · obtain ⟨s, s₀, v₀, hstep, hnorm, hradius, hreduction, hadd, hsolves, hsmall⟩ :=
      trustStep_stretched hc hlimit hm hr hp
    refine ⟨hnorm.trans hradius, fun hloss v hv => ?_⟩
    have hreaches : (coords s₀ + v₀) ⬝ᵥ (coords s₀ + v₀) = radius * radius := by
      rw [← hadd, ← norm_mul_self, hradius]
    have hinside : (coords d * coords v) ⬝ᵥ (coords d * coords v) ≤ radius * radius := by
      rw [← coords_timesEach, ← norm_mul_self]
      exact mul_self_le_mul_self (norm_nonneg _) hv
    have hgain := hsolves.loss_le (neg_nonneg.mpr hp.le) hreaches hloss hsmall hinside
    rw [predicted_diagonallyScaled hd, ← hadd, ← hreduction] at hgain
    exact hgain

end

/-- A model that is nowhere convex, asked again with a larger radius. -/
theorem trustStep_optimal_concave :
    let h : Symmetric ℝ 1 := .ofFn fun _ _ => -1
    let trial := (trustStep Config.default h #v[1] #v[1] 2
      (trustStep Config.default h #v[1] #v[1] 1 .new).2).1
    let shifted := h.matrix + trial.parameter • squaredScale #v[1]
    trial.length = Geometry.norm (timesEach #v[1] trial.step) ∧
    (0 ≤ trial.parameter → shifted.PosDef ∧ shifted *ᵥ coords trial.step = -coords #v[1] ∧
      ∀ v : Vector ℝ 1, Geometry.norm (timesEach #v[1] v) ≤ trial.length →
        predicted h #v[1] (coords trial.step) ≤ predicted h #v[1] (coords v)) ∧
    (trial.parameter < 0 → trial.length = 2 ∧ (stretchLoss Config.default ≤ 1 →
      ∀ v : Vector ℝ 1, Geometry.norm (timesEach #v[1] v) ≤ 2 →
        (1 - stretchLoss Config.default) * -predicted h #v[1] (coords v) ≤ trial.reduction)) := by
  refine trustStep_optimal (Config.validate_default 1) ?_ ?_ ?_ two_pos
  · norm_num [Config.default]
  · intro i
    fin_cases i
    exact one_pos
  · exact .after (.fresh rfl) one_pos

end LeastSquares
