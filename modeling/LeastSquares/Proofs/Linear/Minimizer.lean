import LeastSquares.Covariance
import LeastSquares.Proofs.Linear.Normal

namespace LeastSquares

open Matrix

variable {m n : Nat}

theorem objective_eq (v : Vector ℝ m) : objective v = 1 / 2 * (coords v ⬝ᵥ coords v) := by
  rw [objective, normSq_eq]

theorem objective_nonneg (v : Vector ℝ m) : 0 ≤ objective v := by
  rw [objective_eq]
  exact mul_nonneg (by norm_num) (dotProduct_self_nonneg _)

namespace Dense

variable (a : Dense ℝ m n) (b : Vector ℝ m)

noncomputable def columnNorms : Vector ℝ n := Vector.ofFn fun j => Geometry.norm (a.column j)

theorem getElem_columnNorms (j : Fin n) : a.columnNorms[j] = Geometry.norm (a.column j) := by
  simp [columnNorms]

noncomputable def misfit (x : Vector ℝ n) : Vector ℝ m :=
  Vector.ofFn fun i => ∑ j : Fin n, a.get i j * x[j] - b[i]

theorem coords_misfit (x : Vector ℝ n) :
    coords (a.misfit b x) = a.matrix *ᵥ coords x - coords b := by
  funext i
  simp [coords, misfit, Matrix.mulVec, dotProduct, matrix]

theorem coords_transposeMulVec (v : Vector ℝ m) :
    coords (a.transposeMulVec v) = a.matrixᵀ *ᵥ coords v := by
  funext j
  have hentry : coords (a.transposeMulVec v) j = dot (a.column j) v :=
    Vector.getElem_map _ _
  rw [hentry, dot_eq]
  rfl

theorem coords_misfit_add (x v : Vector ℝ n) :
    coords (a.misfit b (x + v)) = coords (a.misfit b x) + a.matrix *ᵥ coords v := by
  rw [coords_misfit, coords_misfit, coords_add, mulVec_add]
  abel

theorem objective_misfit_add (x v : Vector ℝ n) : objective (a.misfit b (x + v)) =
    objective (a.misfit b x) + coords v ⬝ᵥ coords (a.transposeMulVec (a.misfit b x)) +
      1 / 2 * (coords v ⬝ᵥ (a.matrixᵀ * a.matrix) *ᵥ coords v) := by
  have hslope : (a.matrix *ᵥ coords v) ⬝ᵥ coords (a.misfit b x) =
      coords v ⬝ᵥ coords (a.transposeMulVec (a.misfit b x)) := by
    rw [coords_transposeMulVec, dotProduct_mulVec, vecMul_transpose]
  have hform : (a.matrix *ᵥ coords v) ⬝ᵥ (a.matrix *ᵥ coords v) =
      coords v ⬝ᵥ (a.matrixᵀ * a.matrix) *ᵥ coords v := by
    rw [← mulVec_mulVec, dotProduct_mulVec (coords v), vecMul_transpose]
  rw [objective_eq, objective_eq, coords_misfit_add, add_dotProduct, dotProduct_add,
    dotProduct_add, dotProduct_comm _ (a.matrix *ᵥ coords v), hslope, hform]
  ring

theorem transposeMulVec_misfit_add (x v : Vector ℝ n) :
    coords (a.transposeMulVec (a.misfit b (x + v))) =
      coords (a.transposeMulVec (a.misfit b x)) + (a.matrixᵀ * a.matrix) *ᵥ coords v := by
  rw [coords_transposeMulVec, coords_transposeMulVec, coords_misfit_add, mulVec_add,
    mulVec_mulVec]

section

variable {a b} {x : Vector ℝ n}

def GaussNewton (a : Dense ℝ m n) (b : Vector ℝ m) (x v : Vector ℝ n) : Prop :=
  (a.matrixᵀ * a.matrix) *ᵥ coords v = -coords (a.transposeMulVec (a.misfit b x))

theorem GaussNewton.objective_add {v : Vector ℝ n} (hv : a.GaussNewton b x v) :
    objective (a.misfit b (x + v)) = objective (a.misfit b x) -
      1 / 2 * (coords v ⬝ᵥ (a.matrixᵀ * a.matrix) *ᵥ coords v) := by
  have hslope : coords v ⬝ᵥ coords (a.transposeMulVec (a.misfit b x)) =
      -(coords v ⬝ᵥ (a.matrixᵀ * a.matrix) *ᵥ coords v) := by
    rw [hv, dotProduct_neg, neg_neg]
  rw [objective_misfit_add, hslope]
  ring

theorem GaussNewton.gradient_add {v : Vector ℝ n} (hv : a.GaussNewton b x v) :
    coords (a.transposeMulVec (a.misfit b (x + v))) = 0 := by
  rw [transposeMulVec_misfit_add, hv, add_neg_cancel]

variable (hdef : (a.matrixᵀ * a.matrix).PosDef)
include hdef

theorem eq_inv_mulVec_of_gradient (hx : coords (a.transposeMulVec (a.misfit b x)) = 0) :
    coords x = (a.matrixᵀ * a.matrix)⁻¹ *ᵥ (a.matrixᵀ *ᵥ coords b) := by
  have hnormal : (a.matrixᵀ * a.matrix) *ᵥ coords x = a.matrixᵀ *ᵥ coords b := by
    rw [coords_transposeMulVec, coords_misfit, mulVec_sub, mulVec_mulVec] at hx
    exact sub_eq_zero.mp hx
  have hunit := (isUnit_iff_isUnit_det _).mp (PosDef.isUnit hdef)
  rw [← hnormal, mulVec_mulVec, nonsing_inv_mul _ hunit, one_mulVec]

theorem objective_lt_of_gradient (hx : coords (a.transposeMulVec (a.misfit b x)) = 0)
    {y : Vector ℝ n} (hy : y ≠ x) :
    objective (a.misfit b x) < objective (a.misfit b y) := by
  have hne : coords (y - x) ≠ 0 := by
    rw [coords_sub]
    exact sub_ne_zero.mpr fun h => hy (coords_injective h)
  have hform := hdef.dotProduct_mulVec_pos hne
  rw [star_trivial] at hform
  rw [← vector_add_sub_cancel x y, objective_misfit_add, hx, dotProduct_zero]
  linarith

end

end Dense

end LeastSquares
