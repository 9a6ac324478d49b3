import LeastSquares.Proofs.Linear.Cholesky
import Mathlib.Algebra.Order.Star.Real

namespace LeastSquares

open Matrix

variable {n : Nat} {a : Symmetric ℝ n}

theorem Cholesky.rows_spec (a : Symmetric ℝ n) :
    (∀ l, a.cholesky = .ok l → Cholesky.Rows a n l) ∧
      ∀ e, a.cholesky = .error e → Cholesky.Failed a e := by
  have h := foldlM_take_induction (Cholesky.Rows a) (Cholesky.Failed a) (Cholesky.rows_zeros a)
    (fun i l => Cholesky.row_spec) (le_refl n)
  rwa [List.take_of_length_le (by simp)] at h

theorem Lower.mul_transpose_apply (l : Lower ℝ n) (i j : Fin n) :
    (l.matrix * l.matrixᵀ) i j = Cholesky.product l i j := by
  rw [Matrix.mul_apply, Cholesky.product]
  symm
  apply Finset.sum_subset (Finset.subset_univ _)
  intro k _ hk
  rw [l.get_of_lt (by simpa using hk : j < k), mul_zero]

namespace Symmetric

theorem cholesky_positiveDiagonal {l : Lower ℝ n} (h : a.cholesky = .ok l) : l.PositiveDiagonal :=
  fun i => ((Cholesky.rows_spec a).1 l h).diagonal_pos i i.isLt

theorem cholesky_product {l : Lower ℝ n} (h : a.cholesky = .ok l) :
    l.matrix * l.matrixᵀ = a.matrix := by
  have hr := (Cholesky.rows_spec a).1 l h
  symm
  apply matrix_eq_of_le (isSymm_mul_transpose_self _)
  intro i j hj
  rw [l.mul_transpose_apply]
  exact (hr.product_eq i j i.isLt hj).symm

end Symmetric

theorem Lower.det_ne_zero {l : Lower ℝ n} (h : ∀ i, l.get i i ≠ 0) : l.matrix.det ≠ 0 := by
  rw [det_of_isLowerTriangular]
  · exact Finset.prod_ne_zero_iff.mpr fun i _ => h i
  · intro i j hij
    exact l.get_of_lt hij

theorem posDef_mul_transpose {m : Matrix (Fin n) (Fin n) ℝ} (hm : m.det ≠ 0) :
    (m * mᵀ).PosDef := by
  have hunit : IsUnit m := m.isUnit_iff_isUnit_det.mpr hm.isUnit
  rw [← conjTranspose_eq_transpose_of_trivial]
  exact PosDef.mul_conjTranspose_self m (vecMul_injective_of_isUnit hunit)

theorem not_posDef_of_form {m : Matrix (Fin n) (Fin n) ℝ} {v : Fin n → ℝ} (hv : v ≠ 0)
    (h : v ⬝ᵥ m *ᵥ v ≤ 0) : ¬m.PosDef := by
  intro hp
  have hpos := hp.dotProduct_mulVec_pos hv
  rw [star_trivial] at hpos
  exact absurd h (not_le.mpr hpos)

theorem dotProduct_mul_transpose (l : Lower ℝ n) (v : Fin n → ℝ) :
    v ⬝ᵥ (l.matrix * l.matrixᵀ) *ᵥ v = (l.matrixᵀ *ᵥ v) ⬝ᵥ (l.matrixᵀ *ᵥ v) := by
  rw [← mulVec_mulVec, dotProduct_mulVec, ← mulVec_transpose]

theorem Symmetric.posDef_of_cholesky {l : Lower ℝ n} (h : a.cholesky = .ok l) :
    a.matrix.PosDef := by
  rw [← cholesky_product h]
  exact posDef_mul_transpose (Lower.det_ne_zero (cholesky_positiveDiagonal h).ne_zero)

namespace NotPositiveDefinite

variable (e : NotPositiveDefinite ℝ n)

theorem coords_directionStep (i : Fin n) (w : Vector ℝ n) :
    coords (e.directionStep i w) = Function.update (coords w) i
      (-(∑ j ∈ Finset.Ioc i e.index, e.factor.get j i * coords w j) / e.factor.get i i) := by
  have hl : ((upTo e.index).drop (i + 1)).Nodup :=
    (nodup_upTo e.index).sublist (List.drop_sublist _ _)
  have hmem : ((upTo e.index).drop (i + 1)).toFinset = Finset.Ioc i e.index := by
    ext j
    rw [List.mem_toFinset, upTo, mem_drop_take_finRange, Finset.mem_Ioc, Fin.lt_def, Fin.le_def]
    omega
  rw [directionStep, coords_set, sumOver_eq_sum hl, hmem]
  rfl

variable {e}

theorem direction_spec (h : ∀ i, i < e.index → e.factor.get i i ≠ 0) :
    coords e.direction e.index = 1 ∧ (∀ i, e.index < i → coords e.direction i = 0) ∧
      ∀ i, i < e.index → e.factor.get i i * coords e.direction i +
        ∑ j ∈ Finset.Ioc i e.index, e.factor.get j i * coords e.direction j = 0 := by
  have hd := foldr_take_induction (f := e.directionStep)
    (b := (Vector.replicate n 0).set e.index 1 e.index.isLt)
    (fun k w => coords w e.index = 1 ∧ (∀ i, e.index < i → coords w i = 0) ∧
      ∀ i : Fin n, k ≤ i → i < e.index → e.factor.get i i * coords w i +
        ∑ j ∈ Finset.Ioc i e.index, e.factor.get j i * coords w j = 0)
    (Nat.le_of_lt e.index.isLt) ?start ?turn
  · exact ⟨hd.1, hd.2.1, fun i => hd.2.2 i (Nat.zero_le _)⟩
  · rw [coords_set, coords_replicate_zero]
    refine ⟨Function.update_self .., fun i hi => ?_, fun i hi hlt => absurd hlt (Fin.not_lt.mpr hi)⟩
    rw [Function.update_of_ne (Fin.ne_of_gt hi)]
    rfl
  · rintro i w hi ⟨hone, hzero, horth⟩
    rw [coords_directionStep]
    refine ⟨?_, fun j hj => ?_, fun k hk hlt => ?_⟩
    · rwa [Function.update_of_ne (Fin.ne_of_gt hi)]
    · rw [Function.update_of_ne (Fin.ne_of_gt (Fin.lt_trans hi hj))]
      exact hzero j hj
    · have hki : i ∉ Finset.Ioc k e.index := fun h => Nat.not_lt.mpr hk (Finset.mem_Ioc.mp h).1
      rw [sum_mul_update hki]
      rcases Nat.lt_or_eq_of_le hk with hik | hik
      · rw [Function.update_of_ne (Fin.ne_of_gt hik)]
        exact horth k hik hlt
      · obtain rfl : i = k := Fin.ext hik
        rw [Function.update_self, mul_div_cancel₀ _ (h i hlt), neg_add_cancel]

theorem transpose_mulVec_direction (h : ∀ i, i < e.index → e.factor.get i i ≠ 0) {m : Fin n}
    (hm : m < e.index) : (e.factor.matrixᵀ *ᵥ coords e.direction) m = 0 := by
  obtain ⟨-, hzero, horth⟩ := direction_spec h
  rw [Lower.transpose_mulVec_apply, sum_Ici, ← horth m hm]
  congr 1
  symm
  apply Finset.sum_subset
  · intro j hj
    exact Finset.mem_Ioi.mpr (Finset.mem_Ioc.mp hj).1
  · intro j hj hj'
    have hlt : e.index < j := by
      rw [Finset.mem_Ioc, not_and, not_le] at hj'
      exact hj' (Finset.mem_Ioi.mp hj)
    rw [hzero j hlt, mul_zero]

theorem get_eq_of_failed (h : Cholesky.Failed a e) {i j : Fin n} (hi : i ≤ e.index) (hj : j ≤ i) :
    a.get i j = ∑ m ∈ Finset.Iio e.index, e.factor.get i m * e.factor.get j m +
      if i = e.index ∧ j = e.index then e.pivot else 0 := by
  by_cases hk : j = e.index
  · obtain rfl : i = e.index := Fin.le_antisymm hi (hk ▸ hj)
    rw [if_pos ⟨rfl, hk⟩, hk, h.pivot_eq]
    ring
  · have hlt : j < e.index := lt_of_le_of_ne (Fin.le_trans hj hi) hk
    rw [if_neg fun he => hk he.2, add_zero, ← h.product_eq i j hi hj hlt]
    apply Finset.sum_subset
    · intro m hm
      exact Finset.mem_Iio.mpr (Fin.lt_of_le_of_lt (Finset.mem_Iic.mp hm) hlt)
    · intro m _ hm
      rw [e.factor.get_of_lt (by simpa using hm : j < m), mul_zero]

theorem direction_ne_zero (h : Cholesky.Failed a e) : coords e.direction ≠ 0 := by
  intro h0
  have hone := (direction_spec h.diagonal_ne_zero).1
  rw [h0] at hone
  exact zero_ne_one hone

theorem get_eq_of_failed_le (h : Cholesky.Failed a e) {i j : Fin n} (hi : i ≤ e.index)
    (hj : j ≤ e.index) :
    a.get i j = ∑ m ∈ Finset.Iio e.index, e.factor.get i m * e.factor.get j m +
      if i = e.index ∧ j = e.index then e.pivot else 0 := by
  rcases Fin.le_total j i with hji | hij
  · exact get_eq_of_failed h hi hji
  · rw [a.get_comm, get_eq_of_failed h hj hij]
    simp only [mul_comm, and_comm]

theorem mul_get_mul_of_failed (h : Cholesky.Failed a e) {w : Fin n → ℝ} (hone : w e.index = 1)
    (hzero : ∀ i, e.index < i → w i = 0) (i j : Fin n) : w i * (a.get i j * w j) =
      ∑ m ∈ Finset.Iio e.index, (e.factor.get i m * w i) * (e.factor.get j m * w j) +
        if i = e.index ∧ j = e.index then e.pivot else 0 := by
  rcases lt_or_ge e.index i with hi | hi
  · simp [hzero i hi, Fin.ne_of_gt hi]
  rcases lt_or_ge e.index j with hj | hj
  · simp [hzero j hj, Fin.ne_of_gt hj]
  have hpivot : w i * ((if i = e.index ∧ j = e.index then e.pivot else 0) * w j) =
      if i = e.index ∧ j = e.index then e.pivot else 0 := by
    split
    · next hij => rw [hij.1, hij.2, hone]; ring
    · ring
  rw [get_eq_of_failed_le h hi hj, add_mul, mul_add, hpivot, Finset.sum_mul, Finset.mul_sum]
  congr 1
  apply Finset.sum_congr rfl
  intro m _
  ring

theorem quadraticForm_direction (h : Cholesky.Failed a e) :
    coords e.direction ⬝ᵥ a.matrix *ᵥ coords e.direction = e.pivot := by
  obtain ⟨hone, hzero, -⟩ := direction_spec h.diagonal_ne_zero
  have hcolumn (m : Fin n) (hm : m ∈ Finset.Iio e.index) :
      ∑ i, e.factor.get i m * coords e.direction i = 0 :=
    transpose_mulVec_direction h.diagonal_ne_zero (Finset.mem_Iio.mp hm)
  generalize coords e.direction = w at hone hzero hcolumn ⊢
  calc w ⬝ᵥ a.matrix *ᵥ w = ∑ i, ∑ j, w i * (a.get i j * w j) := by
        simp only [dotProduct, Matrix.mulVec, Finset.mul_sum, Symmetric.matrix_apply]
    _ = ∑ m ∈ Finset.Iio e.index, (∑ i, e.factor.get i m * w i) * (∑ j, e.factor.get j m * w j)
          + ∑ i, ∑ j, if i = e.index ∧ j = e.index then e.pivot else 0 := by
        simp only [mul_get_mul_of_failed h hone hzero, Finset.sum_add_distrib, Finset.sum_mul_sum]
        congr 1
        rw [Finset.sum_congr rfl fun i _ => Finset.sum_comm, Finset.sum_comm]
    _ = e.pivot := by
        rw [Finset.sum_eq_zero fun m hm => by rw [hcolumn m hm, zero_mul], zero_add]
        simp [ite_and]

end NotPositiveDefinite

namespace Symmetric

theorem not_posDef_of_failed {e : NotPositiveDefinite ℝ n} (h : Cholesky.Failed a e) :
    ¬a.matrix.PosDef :=
  not_posDef_of_form (NotPositiveDefinite.direction_ne_zero h)
    ((NotPositiveDefinite.quadraticForm_direction h).trans_le h.pivot_nonpos)

theorem exists_cholesky_of_posDef (h : a.matrix.PosDef) : ∃ l, a.cholesky = .ok l := by
  cases hc : a.cholesky with
  | ok l => exact ⟨l, rfl⟩
  | error e => exact absurd h (not_posDef_of_failed ((Cholesky.rows_spec a).2 e hc))

end Symmetric

end LeastSquares
