import LeastSquares.Packed.Lower
import LeastSquares.Proofs.Sums
import Mathlib.LinearAlgebra.Matrix.PosDef

namespace LeastSquares

open Matrix

variable {n : Nat}

/-- The components of a vector as a function, for which matrices have their products. -/
def coords (x : Vector ℝ n) : Fin n → ℝ := fun i => x[i]

theorem coords_apply (x : Vector ℝ n) (i : Fin n) : coords x i = x[i] := rfl

theorem coords_injective : Function.Injective (coords : Vector ℝ n → Fin n → ℝ) := by
  intro x y h
  apply Vector.ext
  intro i hi
  exact congrFun h ⟨i, hi⟩

theorem coords_add (x y : Vector ℝ n) : coords (x + y) = coords x + coords y := by
  funext i
  simp [coords]

theorem coords_sub (x y : Vector ℝ n) : coords (x - y) = coords x - coords y := by
  funext i
  simp [coords]

theorem vector_add_sub_cancel (x y : Vector ℝ n) : x + (y - x) = y := by
  apply coords_injective
  rw [coords_add, coords_sub, add_sub_cancel]

theorem vector_add_sub_cancel_left (x y : Vector ℝ n) : x + y - x = y := by
  apply coords_injective
  rw [coords_sub, coords_add, add_sub_cancel_left]

theorem coords_neg (x : Vector ℝ n) : coords (-x) = -coords x := by
  funext i
  simp [coords]

theorem coords_replicate_zero : coords (Vector.replicate n (0 : ℝ)) = 0 := by
  funext i
  simp [coords]

theorem coords_map_mul (x : Vector ℝ n) (c : ℝ) : coords (x.map (· * c)) = c • coords x := by
  funext i
  simp [coords, mul_comm]

theorem coords_map_div (x : Vector ℝ n) (c : ℝ) : coords (x.map (· / c)) = c⁻¹ • coords x := by
  funext i
  simp [coords, div_eq_inv_mul]

theorem coords_timesEach (x y : Vector ℝ n) : coords (timesEach x y) = coords x * coords y := by
  funext i
  simp [coords, timesEach]

theorem coords_overEach (x y : Vector ℝ n) : coords (overEach x y) = coords x / coords y := by
  funext i
  simp [coords, overEach]

theorem overEach_replicate_zero (d : Vector ℝ n) :
    overEach (Vector.replicate n 0) d = Vector.replicate n 0 := by
  apply coords_injective
  rw [coords_overEach, coords_replicate_zero]
  exact funext fun i => zero_div _

theorem dot_eq (x y : Vector ℝ n) : dot x y = coords x ⬝ᵥ coords y := dot_eq_sum x y

theorem inner_eq (x y : Vector ℝ n) : Geometry.inner x y = coords x ⬝ᵥ coords y := rfl

theorem norm_eq (x : Vector ℝ n) : Geometry.norm x = √(coords x ⬝ᵥ coords x) := by
  change √(∑ i : Fin n, x[i] ^ 2) = _
  simp only [dotProduct, coords, sq]

theorem norm_single (a : ℝ) : Geometry.norm #v[a] = |a| := by
  rw [norm_eq]
  simp [coords, dotProduct, Real.sqrt_mul_self_eq_abs]

theorem norm_nonneg (x : Vector ℝ n) : 0 ≤ Geometry.norm x := by
  rw [norm_eq]
  exact Real.sqrt_nonneg _

theorem dotProduct_self_nonneg (v : Fin n → ℝ) : 0 ≤ v ⬝ᵥ v :=
  Finset.sum_nonneg fun i _ => mul_self_nonneg (v i)

theorem dotProduct_self_pos {v : Fin n → ℝ} (hv : v ≠ 0) : 0 < v ⬝ᵥ v :=
  (dotProduct_self_nonneg v).lt_of_ne fun h => hv (dotProduct_self_eq_zero.mp h.symm)

theorem norm_mul_self (x : Vector ℝ n) :
    Geometry.norm x * Geometry.norm x = coords x ⬝ᵥ coords x := by
  rw [norm_eq]
  exact Real.mul_self_sqrt (dotProduct_self_nonneg _)

theorem norm_eq_zero {x : Vector ℝ n} : Geometry.norm x = 0 ↔ coords x = 0 := by
  rw [norm_eq, Real.sqrt_eq_zero (dotProduct_self_nonneg _), dotProduct_self_eq_zero]

theorem norm_replicate_zero : Geometry.norm (Vector.replicate n (0 : ℝ)) = 0 :=
  norm_eq_zero.mpr coords_replicate_zero

theorem normSq_eq (x : Vector ℝ n) : normSq x = coords x ⬝ᵥ coords x := dot_eq x x

namespace Symmetric

def matrix (a : Symmetric ℝ n) : Matrix (Fin n) (Fin n) ℝ := of a.get

theorem matrix_apply (a : Symmetric ℝ n) (i j : Fin n) : a.matrix i j = a.get i j := rfl

theorem isSymm_matrix (a : Symmetric ℝ n) : a.matrix.IsSymm := by
  ext i j
  exact a.get_comm j i

theorem isHermitian_matrix (a : Symmetric ℝ n) : a.matrix.IsHermitian := by
  ext i j
  exact a.get_comm j i

theorem matrix_eq_of_le {a : Symmetric ℝ n} {b : Matrix (Fin n) (Fin n) ℝ} (hb : b.IsSymm)
    (h : ∀ i j, j ≤ i → a.get i j = b i j) : a.matrix = b := by
  ext i j
  rcases Fin.le_total j i with hj | hj
  · exact h i j hj
  · rw [matrix_apply, a.get_comm, h j i hj, hb.apply]

theorem coords_mulVec (a : Symmetric ℝ n) (x : Vector ℝ n) :
    coords (a.mulVec x) = a.matrix *ᵥ coords x := by
  funext i
  simp [coords, mulVec, sumOver_finRange, Matrix.mulVec, dotProduct, matrix]

theorem quadraticForm_eq (a : Symmetric ℝ n) (x : Vector ℝ n) :
    a.quadraticForm x = coords x ⬝ᵥ a.matrix *ᵥ coords x := by
  rw [quadraticForm, dot_eq, coords_mulVec]

theorem matrix_addToDiagonal (a : Symmetric ℝ n) (c : ℝ) :
    (a.addToDiagonal c).matrix = a.matrix + c • 1 := by
  ext i j
  rw [matrix_apply, addToDiagonal, get_ofFn, Matrix.add_apply, Matrix.smul_apply, matrix_apply,
    Matrix.one_apply, a.get_comm j i]
  by_cases h : i = j
  · simp [h]
  · simp [h, Ne.symm h]

theorem matrix_diagonallyScaled (a : Symmetric ℝ n) (d : Vector ℝ n) (i j : Fin n) :
    (a.diagonallyScaled d).matrix i j = a.get i j / (d[i] * d[j]) := by
  rw [matrix_apply, diagonallyScaled, get_ofFn, a.get_comm j i, mul_comm d[j]]
  split <;> rfl

theorem posDef_iff (a : Symmetric ℝ n) :
    a.matrix.PosDef ↔ ∀ v : Fin n → ℝ, v ≠ 0 → 0 < v ⬝ᵥ a.matrix *ᵥ v := by
  constructor
  · intro h v hv
    simpa using h.dotProduct_mulVec_pos hv
  · intro h
    apply PosDef.of_dotProduct_mulVec_pos a.isHermitian_matrix
    intro v hv
    simpa using h v hv

end Symmetric

namespace Lower

noncomputable def matrix (l : Lower ℝ n) : Matrix (Fin n) (Fin n) ℝ := of l.get

theorem matrix_apply (l : Lower ℝ n) (i j : Fin n) : l.matrix i j = l.get i j := rfl

theorem mulVec_apply (l : Lower ℝ n) (v : Fin n → ℝ) (i : Fin n) :
    (l.matrix *ᵥ v) i = ∑ j ∈ Finset.Iic i, l.get i j * v j := by
  symm
  apply Finset.sum_subset (Finset.subset_univ _)
  intro j _ hj
  rw [l.get_of_lt (by simpa using hj), zero_mul]

theorem transpose_mulVec_apply (l : Lower ℝ n) (v : Fin n → ℝ) (j : Fin n) :
    (l.matrixᵀ *ᵥ v) j = ∑ i ∈ Finset.Ici j, l.get i j * v i := by
  symm
  apply Finset.sum_subset (Finset.subset_univ _)
  intro i _ hi
  rw [l.get_of_lt (by simpa using hi), zero_mul]

end Lower

end LeastSquares
