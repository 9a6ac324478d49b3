import LeastSquares.Proofs.TrustStep.Direct
import LeastSquares.Proofs.TrustStep.Scaled

namespace LeastSquares

open Matrix

variable {n : Nat} {d v : Vector ℝ n} {h : Symmetric ℝ n} {g : Vector ℝ n}

/-- The trial is the whole Newton step `v`, which gains half of what its slope would. -/
structure Trial.Whole (t : Trial ℝ n) (h : Symmetric ℝ n) (d v : Vector ℝ n) : Prop where
  step : t.step = v
  length : t.length = Geometry.norm (timesEach v d)
  slope : t.slope = -(2 * t.reduction)
  reduction : t.reduction = 1 / 2 * (coords v ⬝ᵥ h.matrix *ᵥ coords v)
  newtonReduction : t.newtonReduction = t.reduction
  parameter : t.parameter = 0
  newtonLength : t.newtonLength = t.length

section

variable (hd : ∀ i : Fin n, 0 < d[i])
include hd

theorem posDef_diagonallyScaled (hdef : h.matrix.PosDef) :
    (h.diagonallyScaled d).matrix.PosDef := by
  rw [Symmetric.posDef_iff] at hdef ⊢
  intro v hv
  have hscaled : coords d * (v / coords d) = v := by
    funext i
    exact mul_div_cancel₀ _ (coords_ne_zero_of_pos hd i)
  have hne : v / coords d ≠ 0 := by
    intro hzero
    rw [hzero, mul_zero] at hscaled
    exact hv hscaled.symm
  rw [← hscaled, dotProduct_diagonallyScaled hd]
  exact hdef _ hne

theorem diagonallyScaled_mulVec_timesEach (hv : h.matrix *ᵥ coords v = -coords g) :
    (h.diagonallyScaled d).matrix *ᵥ coords (timesEach v d) = -coords (overEach g d) := by
  have hscaled : coords d * ((h.diagonallyScaled d).matrix *ᵥ (coords d * coords v)) =
      coords d * -coords (overEach g d) := by
    rw [mul_diagonallyScaled_mulVec hd, hv, mul_neg, mul_coords_overEach hd]
  rw [coords_timesEach, mul_comm (coords v)]
  funext i
  exact mul_left_cancel₀ (coords_ne_zero_of_pos hd i) (congrFun hscaled i)

theorem whole_newton (hv : h.matrix *ᵥ coords v = -coords g) :
    (Trial.newton h g d (timesEach v d)).Whole h d v := by
  have hform : coords (timesEach v d) ⬝ᵥ (h.diagonallyScaled d).matrix *ᵥ
      coords (timesEach v d) = coords v ⬝ᵥ h.matrix *ᵥ coords v := by
    rw [coords_timesEach, mul_comm, dotProduct_diagonallyScaled hd]
  have hslope : coords (overEach g d) ⬝ᵥ coords (timesEach v d) =
      -(coords v ⬝ᵥ h.matrix *ᵥ coords v) := by
    rw [coords_timesEach, mul_comm, overEach_dotProduct hd, hv, dotProduct_neg, neg_neg,
      dotProduct_comm]
  have hstep : overEach (timesEach v d) d = v := by
    apply coords_injective
    rw [coords_overEach, coords_timesEach]
    funext i
    exact mul_div_cancel_right₀ _ (coords_ne_zero_of_pos hd i)
  refine ⟨hstep, rfl, ?_, ?_, rfl, rfl, rfl⟩
  · rw [Trial.newton, hform, hslope]
    ring
  · rw [Trial.newton, hform]

theorem trustStep_whole {c : Config ℝ} {radius : ℝ} {m : StepMemory ℝ n} (hm : m.isFresh = true)
    (hdef : h.matrix.PosDef) (hclear : (h.diagonallyScaled d).Clear)
    (hv : h.matrix *ᵥ coords v = -coords g)
    (hshort : Geometry.norm (timesEach v d) - radius ≤ c.phiMax * radius) :
    (trustStep c h g d radius m).1.Whole h d v := by
  rw [trustStep_newton hm (posDef_diagonallyScaled hd hdef) hclear
    (diagonallyScaled_mulVec_timesEach hd hv) hshort]
  exact whole_newton hd hv

end

end LeastSquares
