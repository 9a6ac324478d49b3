import LeastSquares.Proofs.TrustStep.Model
import LeastSquares.TrustStep.Machine

namespace LeastSquares

open Matrix

variable {n : Nat} {b : Symmetric ℝ n} {l : Lower ℝ n}

theorem Lower.newtonStep_spec (hl : b.cholesky = .ok l) (g : Vector ℝ n) :
    ∃ q s, l.newtonStep g = .ok (q, s) ∧ b.matrix *ᵥ coords s = -coords g ∧
      normSq q = coords s ⬝ᵥ b.matrix *ᵥ coords s := by
  have hpos := Symmetric.cholesky_positiveDiagonal hl
  have hq := solve_spec hpos (solve_eq_ok hpos g)
  have hs := solveTranspose_spec hpos (solveTranspose_eq_ok hpos (l.forward g))
  refine ⟨l.forward g, -l.backward (l.forward g), ?_, ?_, ?_⟩
  · simp only [newtonStep, solve_eq_ok hpos, solveTranspose_eq_ok hpos, bind, Except.bind, pure,
      Except.pure]
  · rw [coords_neg, mulVec_neg, ← Symmetric.cholesky_product hl, ← mulVec_mulVec, hs, hq]
  · rw [coords_neg, mulVec_neg, dotProduct_neg, neg_dotProduct, neg_neg,
      ← Symmetric.cholesky_product hl, dotProduct_mul_transpose, hs, normSq_eq]

theorem Symmetric.solves_of_cholesky {h : Symmetric ℝ n} {g s : Vector ℝ n}
    (hl : h.cholesky = .ok l) (hs : h.matrix *ᵥ coords s = -coords g) : Solves h g 0 s where
  posDef := by
    rw [matrix_addToDiagonal_zero]
    exact posDef_of_cholesky hl
  equation := by rwa [matrix_addToDiagonal_zero]

/-- The Hessian is not positive definite, or nearly not, or its Newton step fits, or is too long
and tells how fast a shift makes it shorter. -/
theorem StepTask.tryNewton_cases (t : StepTask ℝ n) (w : StepWork ℝ n) :
    (∃ e, t.hessian.cholesky = .error e ∧ t.tryNewton w = (.bracket, { w with
      memory := { w.memory with low := -e.rayleigh, newtonLength := - -e.rayleigh } })) ∨
    ∃ l, t.hessian.cholesky = .ok l ∧
      (l.smallestSingular.sigma * l.smallestSingular.sigma ≤ singularFactor * t.largestEntry ∧
        t.tryNewton w = (.bracket, { w with memory := { w.memory with
          newtonLength := -(l.smallestSingular.sigma * l.smallestSingular.sigma)
          newtonReduction := 0 } }) ∨
      singularFactor * t.largestEntry < l.smallestSingular.sigma * l.smallestSingular.sigma ∧
        ∃ s energy, t.hessian.matrix *ᵥ coords s = -coords t.gradient ∧
          energy = coords s ⬝ᵥ t.hessian.matrix *ᵥ coords s ∧
          (Geometry.norm s - t.radius ≤ t.longBy ∧ t.tryNewton w = (.done, { w with
            memory := { w.memory with
              newtonReduction := 1 / 2 * energy
              newtonLength := Geometry.norm s
              newton := some s }
            parameter := 0
            length := Geometry.norm s
            excess := Geometry.norm s - t.radius
            step := s
            energy
            factor := some l }) ∨
          t.longBy < Geometry.norm s - t.radius ∧ t.tryNewton w = (.bracket, { w with
            memory := { w.memory with
              newtonReduction := 1 / 2 * energy
              newtonLength := Geometry.norm s
              newton := some s
              newtonSlope := Geometry.norm s / square (Geometry.norm (l.forward s))
              low := max w.memory.low ((Geometry.norm s - t.radius) *
                (Geometry.norm s / square (Geometry.norm (l.forward s))))
              last := some ⟨0, l, s, Geometry.norm s⟩ }
            parameter := 0
            length := Geometry.norm s
            excess := Geometry.norm s - t.radius }))) := by
  unfold tryNewton
  cases hl : t.hessian.cholesky with
  | error e => exact .inl ⟨e, rfl, rfl⟩
  | ok l =>
    refine .inr ⟨l, rfl, ?_⟩
    obtain ⟨q, s, hstep, heq, henergy⟩ := Lower.newtonStep_spec hl t.gradient
    dsimp only
    split
    · next hflat => exact .inl ⟨hflat, rfl⟩
    · next hclear =>
      refine .inr ⟨not_le.mp hclear, s, normSq q, heq, henergy, ?_⟩
      rw [hstep]
      dsimp only
      split
      · next hfits => exact .inl ⟨hfits, rfl⟩
      · next hlong =>
        rw [Lower.solve_eq_ok (Symmetric.cholesky_positiveDiagonal hl)]
        exact .inr ⟨not_le.mp hlong, rfl⟩

theorem Lower.quadraticForm_unit (hl : b.cholesky = .ok l) {y v : Vector ℝ n}
    (hv : l.solveTranspose y = .ok v) (hr : Geometry.norm v ≠ 0) :
    let z := v.map (· / Geometry.norm v)
    let sigma := Geometry.norm y / Geometry.norm v
    coords z ⬝ᵥ coords z = 1 ∧ coords z ⬝ᵥ b.matrix *ᵥ coords z = sigma * sigma := by
  intro z sigma
  have hz : coords z = (Geometry.norm v)⁻¹ • coords v := coords_map_div v _
  have hpos := Symmetric.cholesky_positiveDiagonal hl
  constructor
  · rw [hz, smul_dotProduct, dotProduct_smul, ← norm_mul_self, smul_eq_mul, smul_eq_mul]
    field_simp
  · have ht : l.matrixᵀ *ᵥ coords z = (Geometry.norm v)⁻¹ • coords y := by
      rw [hz, mulVec_smul, solveTranspose_spec hpos hv]
    rw [← Symmetric.cholesky_product hl, dotProduct_mul_transpose, ht, smul_dotProduct,
      dotProduct_smul, ← norm_mul_self, smul_eq_mul, smul_eq_mul]
    simp only [sigma, div_eq_mul_inv]
    ring

theorem StepTask.stretch_spec (t : StepTask ℝ n) {s z : Vector ℝ n}
    (hz : coords z ⬝ᵥ coords z = 1) (hs : Geometry.norm s < t.radius) :
    let theta := t.stretch s z (Geometry.norm s)
    (coords s + theta • coords z) ⬝ᵥ (coords s + theta • coords z) = t.radius * t.radius := by
  intro theta
  let along : ℝ := coords s ⬝ᵥ coords z
  let gap := (t.radius - Geometry.norm s) * (t.radius + Geometry.norm s)
  let root := √(along * along + gap)
  have hgap : 0 < gap := by
    have hn := norm_nonneg s
    exact mul_pos (by linarith) (by linarith)
  have hroot : root * root = along * along + gap :=
    Real.mul_self_sqrt (add_nonneg (mul_self_nonneg _) hgap.le)
  have hrootPos : 0 < root := Real.sqrt_pos.mpr (add_pos_of_nonneg_of_pos (mul_self_nonneg _) hgap)
  have htheta : theta = gap / (if along < 0 then along - root else along + root) := rfl
  have hquadratic : theta * theta + 2 * along * theta = gap := by
    have hprod : gap = (root - along) * (root + along) := by linarith
    by_cases ha : along < 0
    · have hne : along - root ≠ 0 := by linarith
      have ht : theta = -(root + along) := by
        rw [htheta, if_pos ha, hprod, div_eq_iff hne]
        ring
      rw [ht, hprod]
      ring
    · have hne : along + root ≠ 0 := by linarith
      have ht : theta = root - along := by
        rw [htheta, if_neg ha, hprod, div_eq_iff hne]
        ring
      rw [ht, hprod]
      ring
  have hexpand : (coords s + theta • coords z) ⬝ᵥ (coords s + theta • coords z) =
      coords s ⬝ᵥ coords s + (theta * theta + 2 * along * theta) := by
    simp only [add_dotProduct, dotProduct_add, smul_dotProduct, dotProduct_smul, smul_eq_mul, hz,
      dotProduct_comm (coords z) (coords s), along]
    ring
  rw [hexpand, hquadratic, ← norm_mul_self]
  ring

end LeastSquares
