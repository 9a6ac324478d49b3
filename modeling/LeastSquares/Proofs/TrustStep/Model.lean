import LeastSquares.Proofs.Linear.Shifted

namespace LeastSquares

open Matrix

variable {n : Nat}

/-- The change of the objective that a model with gradient `g` and Hessian `h` predicts. -/
noncomputable def predicted (h : Symmetric ℝ n) (g : Vector ℝ n) (v : Fin n → ℝ) : ℝ :=
  coords g ⬝ᵥ v + 1 / 2 * (v ⬝ᵥ h.matrix *ᵥ v)

theorem predicted_zero (h : Symmetric ℝ n) (g : Vector ℝ n) : predicted h g 0 = 0 := by
  simp [predicted]

/-- The step of the model whose Hessian is shifted by `a`. -/
structure Solves (h : Symmetric ℝ n) (g : Vector ℝ n) (a : ℝ) (s : Vector ℝ n) : Prop where
  posDef : (h.addToDiagonal a).matrix.PosDef
  equation : (h.addToDiagonal a).matrix *ᵥ coords s = -coords g

namespace Symmetric

variable (h : Symmetric ℝ n)

theorem dotProduct_matrix_comm (v w : Fin n → ℝ) : v ⬝ᵥ h.matrix *ᵥ w = w ⬝ᵥ h.matrix *ᵥ v := by
  rw [dotProduct_comm, ← vecMul_transpose, h.isSymm_matrix.eq, ← dotProduct_mulVec]

end Symmetric

namespace Solves

variable {h : Symmetric ℝ n} {g s : Vector ℝ n} {a : ℝ}

theorem unique {s' : Vector ℝ n} (hs : Solves h g a s) (hs' : Solves h g a s') : s = s' := by
  apply coords_injective
  by_contra hne
  have hpos := (Symmetric.posDef_iff _).mp hs.posDef _ (sub_ne_zero.mpr hne)
  rw [mulVec_sub, hs.equation, hs'.equation, sub_self, dotProduct_zero] at hpos
  exact lt_irrefl 0 hpos

theorem predicted_eq (hs : Solves h g a s) (v : Fin n → ℝ) :
    predicted h g v = 1 / 2 * ((v - coords s) ⬝ᵥ (h.addToDiagonal a).matrix *ᵥ (v - coords s))
      - 1 / 2 * (coords s ⬝ᵥ (h.addToDiagonal a).matrix *ᵥ coords s) - 1 / 2 * a * (v ⬝ᵥ v) := by
  have hg : coords g ⬝ᵥ v = -(v ⬝ᵥ (h.addToDiagonal a).matrix *ᵥ coords s) := by
    rw [hs.equation, dotProduct_neg, neg_neg, dotProduct_comm]
  have hv := h.dotProduct_addToDiagonal a v
  rw [predicted, hg, mulVec_sub, sub_dotProduct, dotProduct_sub, dotProduct_sub,
    (h.addToDiagonal a).dotProduct_matrix_comm (coords s) v]
  linarith

theorem predicted_self (hs : Solves h g a s) :
    predicted h g (coords s) = -(1 / 2 * (coords s ⬝ᵥ (h.addToDiagonal a).matrix *ᵥ coords s
      + a * (coords s ⬝ᵥ coords s))) := by
  rw [hs.predicted_eq, sub_self, mulVec_zero, dotProduct_zero]
  ring

theorem le_predicted (hs : Solves h g a s) (v : Fin n → ℝ) :
    -(1 / 2 * (coords s ⬝ᵥ (h.addToDiagonal a).matrix *ᵥ coords s + a * (v ⬝ᵥ v)))
      ≤ predicted h g v := by
  have hnonneg := hs.posDef.posSemidef.dotProduct_mulVec_nonneg (v - coords s)
  rw [hs.predicted_eq v]
  simp only [star_trivial] at hnonneg
  linarith

theorem predicted_le (hs : Solves h g a s) (ha : 0 ≤ a) {v : Fin n → ℝ}
    (hv : v ⬝ᵥ v ≤ coords s ⬝ᵥ coords s) : predicted h g (coords s) ≤ predicted h g v := by
  have hle := mul_le_mul_of_nonneg_left hv ha
  rw [hs.predicted_self]
  apply le_trans _ (hs.le_predicted v)
  linarith

theorem predicted_add (hs : Solves h g a s) (w : Fin n → ℝ) :
    predicted h g (coords s + w) = 1 / 2 * (w ⬝ᵥ (h.addToDiagonal a).matrix *ᵥ w)
      - 1 / 2 * (coords s ⬝ᵥ (h.addToDiagonal a).matrix *ᵥ coords s)
      - 1 / 2 * a * ((coords s + w) ⬝ᵥ (coords s + w)) := by
  rw [hs.predicted_eq, add_sub_cancel_left]

theorem loss_le (hs : Solves h g a s) (ha : 0 ≤ a) {w : Fin n → ℝ} {radius loss : ℝ}
    (hlength : (coords s + w) ⬝ᵥ (coords s + w) = radius * radius) (hloss : loss ≤ 1)
    (hw : w ⬝ᵥ (h.addToDiagonal a).matrix *ᵥ w ≤ loss *
      (coords s ⬝ᵥ (h.addToDiagonal a).matrix *ᵥ coords s + a * radius * radius))
    {v : Fin n → ℝ} (hv : v ⬝ᵥ v ≤ radius * radius) :
    (1 - loss) * -predicted h g v ≤ -predicted h g (coords s + w) := by
  have hbound := hs.le_predicted v
  have hle := mul_le_mul_of_nonneg_left hv ha
  have hgain : -predicted h g v ≤
      1 / 2 * (coords s ⬝ᵥ (h.addToDiagonal a).matrix *ᵥ coords s + a * radius * radius) := by
    linarith
  have hmul := mul_le_mul_of_nonneg_left hgain (sub_nonneg.mpr hloss)
  rw [hs.predicted_add, hlength]
  linarith

end Solves

end LeastSquares
