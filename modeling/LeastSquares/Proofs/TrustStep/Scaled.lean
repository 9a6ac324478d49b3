import LeastSquares.Proofs.TrustStep.Model

namespace LeastSquares

open Matrix

variable {n : Nat} {d : Vector ℝ n} {h : Symmetric ℝ n} {g s : Vector ℝ n} {a : ℝ}

noncomputable def squaredScale (d : Vector ℝ n) : Matrix (Fin n) (Fin n) ℝ :=
  diagonal (coords d * coords d)

theorem mul_dotProduct (u v w : Fin n → ℝ) : (u * v) ⬝ᵥ w = v ⬝ᵥ (u * w) := by
  simp only [dotProduct, Pi.mul_apply]
  exact Finset.sum_congr rfl fun i _ => by ring

section

variable (hd : ∀ i : Fin n, 0 < d[i])
include hd

theorem coords_ne_zero_of_pos (i : Fin n) : coords d i ≠ 0 := (hd i).ne'

theorem mul_diagonallyScaled_mulVec (v : Fin n → ℝ) :
    coords d * ((h.diagonallyScaled d).matrix *ᵥ (coords d * v)) = h.matrix *ᵥ v := by
  funext i
  simp only [Pi.mul_apply, mulVec, dotProduct, Finset.mul_sum]
  apply Finset.sum_congr rfl
  intro j _
  rw [Symmetric.matrix_diagonallyScaled, Symmetric.matrix_apply]
  have hi := coords_ne_zero_of_pos hd i
  have hj := coords_ne_zero_of_pos hd j
  rw [coords] at hi hj
  simp only [coords]
  field_simp

theorem dotProduct_diagonallyScaled (v : Fin n → ℝ) :
    (coords d * v) ⬝ᵥ (h.diagonallyScaled d).matrix *ᵥ (coords d * v) = v ⬝ᵥ h.matrix *ᵥ v := by
  rw [mul_dotProduct, mul_diagonallyScaled_mulVec hd]

theorem mul_coords_overEach (x : Vector ℝ n) : coords d * coords (overEach x d) = coords x := by
  rw [coords_overEach]
  funext i
  exact mul_div_cancel₀ _ (coords_ne_zero_of_pos hd i)

theorem overEach_dotProduct (v : Fin n → ℝ) :
    coords (overEach g d) ⬝ᵥ (coords d * v) = coords g ⬝ᵥ v := by
  rw [dotProduct_comm, mul_dotProduct, mul_coords_overEach hd, dotProduct_comm]

theorem predicted_diagonallyScaled (v : Fin n → ℝ) :
    predicted (h.diagonallyScaled d) (overEach g d) (coords d * v) = predicted h g v := by
  rw [predicted, predicted, overEach_dotProduct hd, dotProduct_diagonallyScaled hd]

theorem shifted_mulVec (v : Fin n → ℝ) :
    (h.matrix + a • squaredScale d) *ᵥ v =
      coords d * (((h.diagonallyScaled d).addToDiagonal a).matrix *ᵥ (coords d * v)) := by
  rw [Symmetric.matrix_addToDiagonal, add_mulVec, add_mulVec, mul_add,
    mul_diagonallyScaled_mulVec hd]
  congr 1
  funext i
  simp only [smul_mulVec, one_mulVec, squaredScale, Pi.smul_apply, Pi.mul_apply, mulVec_diagonal,
    smul_eq_mul]
  ring

namespace Solves

theorem unscaled_equation (hs : Solves (h.diagonallyScaled d) (overEach g d) a s) :
    (h.matrix + a • squaredScale d) *ᵥ coords (overEach s d) = -coords g := by
  rw [shifted_mulVec hd, mul_coords_overEach hd, hs.equation, mul_neg, mul_coords_overEach hd]

theorem unscaled_posDef (hs : Solves (h.diagonallyScaled d) (overEach g d) a s) :
    (h.matrix + a • squaredScale d).PosDef := by
  apply PosDef.of_dotProduct_mulVec_pos
  · apply h.isHermitian_matrix.add
    rw [IsHermitian, conjTranspose_eq_transpose_of_trivial, transpose_smul, squaredScale,
      diagonal_transpose]
  · intro v hv
    have hne : coords d * v ≠ 0 := by
      intro h0
      apply hv
      funext i
      have hi := congrFun h0 i
      exact (mul_eq_zero.mp hi).resolve_left (coords_ne_zero_of_pos hd i)
    have hpos := (Symmetric.posDef_iff _).mp hs.posDef _ hne
    rw [star_trivial, shifted_mulVec hd, ← mul_dotProduct]
    exact hpos

end Solves

end

end LeastSquares
