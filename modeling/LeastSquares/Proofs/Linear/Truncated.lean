import LeastSquares.Proofs.Linear.Factored
import LeastSquares.Proofs.Linear.Inverse
import Mathlib.Algebra.Order.BigOperators.Ring.Finset
import Mathlib.Algebra.Order.Star.Real

namespace LeastSquares

open Matrix

variable {m n : Nat}

namespace PivotedQr

variable {f : PivotedQr ℝ m n} {a : Dense ℝ m n} {fixed : Nat}

theorem padded_row (k : Fin (min m n)) (j : Fin n) : f.padded (row k) j = f.entry (col k) j :=
  (dif_pos _).trans (get_r _ _)

theorem padded_of_rank_le {i : Fin m} (hi : f.rank ≤ i) (j : Fin n) : f.padded i j = 0 := by
  rw [padded_apply, if_neg fun h => Nat.not_lt.mpr hi h.1]

theorem entry_of_rank_le {i : Fin n} (hi : f.rank ≤ i) (j : Fin n) : f.entry i j = 0 :=
  dif_neg fun h => Nat.not_lt.mpr hi h.1

theorem transpose_padded_mul_padded :
    f.paddedᵀ * f.padded = f.rTranspose.matrix * f.rTranspose.matrixᵀ := by
  ext i j
  have hpadded (k : Fin m) (hk : min m n ≤ k) : f.padded k i * f.padded k j = 0 := by
    rw [padded_of_rank_le (f.rank_le.trans hk), zero_mul]
  have hentry (k : Fin n) (hk : min m n ≤ k) : f.entry k i * f.entry k j = 0 := by
    rw [entry_of_rank_le (f.rank_le.trans hk), zero_mul]
  calc (f.paddedᵀ * f.padded) i j
      = ∑ k, f.padded k i * f.padded k j := rfl
    _ = ∑ k : Fin (min m n), f.entry (col k) i * f.entry (col k) j := by
        rw [sum_castLE (Nat.min_le_left m n) hpadded]
        simp only [padded_row]
    _ = ∑ k, f.entry k i * f.entry k j := (sum_castLE (Nat.min_le_right m n) hentry).symm
    _ = (f.rTranspose.matrix * f.rTranspose.matrixᵀ) i j := by
        simp only [Matrix.mul_apply, transpose_apply, Lower.matrix_apply, get_rTranspose]

namespace Factored

variable (h : f.Factored a fixed)
include h

theorem transpose_padded_mul_remainder : f.paddedᵀ * f.remainder a = 0 := by
  ext i j
  rw [Matrix.mul_apply]
  apply Finset.sum_eq_zero
  intro k _
  rw [transpose_apply]
  rcases Nat.lt_or_ge k f.rank with hk | hk
  · rw [h.remainder k j (.inl hk), mul_zero]
  · rw [padded_of_rank_le hk, zero_mul]

theorem normal_submatrix :
    (a.matrixᵀ * a.matrix).submatrix (fun j : Fin n => f.sweep.permutation[j])
        (fun j => f.sweep.permutation[j]) =
      f.rTranspose.matrix * f.rTranspose.matrixᵀ + (f.remainder a)ᵀ * f.remainder a := by
  generalize hb : a.matrix.submatrix id (fun j : Fin n => f.sweep.permutation[j]) = b
  have hsplit : f.q.matrixᵀ * b = f.padded + f.remainder a := by
    rw [PivotedQr.remainder, hb, add_sub_cancel]
  have hzero := h.transpose_padded_mul_remainder
  have hzero' : (f.remainder a)ᵀ * f.padded = 0 := by
    rw [← transpose_eq_zero, transpose_mul, transpose_transpose, hzero]
  calc (a.matrixᵀ * a.matrix).submatrix _ _
      = bᵀ * b := by rw [← hb]; rfl
    _ = bᵀ * (f.q.matrix * f.q.matrixᵀ) * b := by
        rw [(mem_orthogonalGroup_iff (Fin m) ℝ).mp h.orthogonal, Matrix.mul_one]
    _ = (f.q.matrixᵀ * b)ᵀ * (f.q.matrixᵀ * b) := by
        simp only [transpose_mul, transpose_transpose, Matrix.mul_assoc]
    _ = f.rTranspose.matrix * f.rTranspose.matrixᵀ + (f.remainder a)ᵀ * f.remainder a := by
        rw [hsplit, transpose_add, Matrix.add_mul, Matrix.mul_add, Matrix.mul_add, hzero, hzero',
          add_zero, zero_add, transpose_padded_mul_padded]

theorem missed_submatrix :
    (a.matrixᵀ * a.matrix - f.normalMatrix.matrix).submatrix
        (fun j : Fin n => f.sweep.permutation[j]) (fun j => f.sweep.permutation[j]) =
      (f.remainder a)ᵀ * f.remainder a := by
  have hkept : f.normalMatrix.matrix.submatrix (fun j : Fin n => f.sweep.permutation[j])
      (fun j => f.sweep.permutation[j]) = f.rTranspose.matrix * f.rTranspose.matrixᵀ := by
    ext i j
    exact normalMatrix_permutation h.permutation.injective i j
  rw [submatrix_sub, Pi.sub_apply, Pi.sub_apply, h.normal_submatrix, hkept, add_sub_cancel_left]

theorem posSemidef_missed : (a.matrixᵀ * a.matrix - f.normalMatrix.matrix).PosSemidef := by
  let e := Equiv.ofBijective _ h.permutation
  rw [← posSemidef_submatrix_equiv e]
  have hmissed : (a.matrixᵀ * a.matrix - f.normalMatrix.matrix).submatrix e e =
      (f.remainder a)ᵀ * f.remainder a := h.missed_submatrix
  rw [hmissed, ← conjTranspose_eq_transpose_of_trivial]
  exact posSemidef_conjTranspose_mul_self _

theorem normalMatrix_of_full (hfull : f.status = .fullRank) :
    f.normalMatrix.matrix = a.matrixᵀ * a.matrix := by
  have hmissed := h.missed_submatrix
  rw [h.full hfull, Matrix.mul_zero] at hmissed
  ext r s
  obtain ⟨i, rfl⟩ := h.permutation.surjective r
  obtain ⟨j, rfl⟩ := h.permutation.surjective s
  exact (sub_eq_zero.mp (congrFun (congrFun hmissed i) j)).symm

end Factored

theorem Falling.column_le (hfactored : f.Factored a fixed) (h : f.Falling a) (j : Fin n) :
    √(∑ i, f.remainder a i j ^ 2) ≤ max (rankTolerance * a.longest) sqrtTiny := by
  cases hstatus : f.status with
  | fullRank =>
    have htiny : (0 : ℝ) ≤ sqrtTiny := Real.sqrt_nonneg _
    rw [hfactored.full hstatus]
    simpa using .inr htiny
  | deficient k =>
    obtain ⟨-, l, hl, hle⟩ := h.deficient k hstatus
    rw [← hl.unique (a.isGreatest_longest j)]
    exact (hle j).trans (le_max_left _ _)
  | underflow k =>
    exact ((h.underflow k hstatus).2 j).le.trans (le_max_right _ _)

theorem abs_transpose_mul_self_le {e : Matrix (Fin m) (Fin n) ℝ} {c : ℝ}
    (h : ∀ j, √(∑ i, e i j ^ 2) ≤ c) (i j : Fin n) : |(eᵀ * e) i j| ≤ c ^ 2 := by
  obtain ⟨hc, hi⟩ := Real.sqrt_le_iff.mp (h i)
  obtain ⟨-, hj⟩ := Real.sqrt_le_iff.mp (h j)
  apply abs_le_of_sq_le_sq _ (sq_nonneg c)
  calc (eᵀ * e) i j ^ 2 ≤ (∑ k, e k i ^ 2) * ∑ k, e k j ^ 2 :=
        Finset.sum_mul_sq_le_sq_mul_sq Finset.univ (fun k => e k i) fun k => e k j
    _ ≤ c ^ 2 * c ^ 2 :=
        mul_le_mul hi hj (Finset.sum_nonneg fun k _ => sq_nonneg _) (sq_nonneg c)
    _ = (c ^ 2) ^ 2 := (sq (c ^ 2)).symm

theorem Factored.abs_missed_le (h : f.Factored a fixed) (hfalling : f.Falling a) (r s : Fin n) :
    |(a.matrixᵀ * a.matrix - f.normalMatrix.matrix) r s| ≤
      max (rankTolerance * a.longest) sqrtTiny ^ 2 := by
  obtain ⟨i, rfl⟩ := h.permutation.surjective r
  obtain ⟨j, rfl⟩ := h.permutation.surjective s
  have hmissed := congrFun (congrFun h.missed_submatrix i) j
  rw [submatrix_apply] at hmissed
  rw [hmissed]
  exact abs_transpose_mul_self_le (hfalling.column_le h) i j

theorem Ends.full_of_le (h : Ends a fixed f) (hrank : n ≤ f.rank) :
    n ≤ m ∧ f.status = .fullRank := by
  cases h with
  | complete hw => exact ⟨hrank.trans (Nat.min_le_left m n), rfl⟩
  | @halted k w status hw hstatus =>
    have hlt : (k : Nat) < n := (col k).isLt
    exact absurd hrank (Nat.not_le.mpr hlt)

/-- What is told of the normal matrix `AᵀA` and of its inverse. -/
structure Normal (f : PivotedQr ℝ m n) (a : Dense ℝ m n) : Prop where
  posSemidef : (a.matrixᵀ * a.matrix - f.normalMatrix.matrix).PosSemidef
  full : f.status = .fullRank → f.normalMatrix.matrix = a.matrixᵀ * a.matrix
  error : ∀ e, f.normalInverse = .error e ↔ f.rank < n ∧ e = .zeroDiagonal f.rank
  inverse : n ≤ f.rank → ∃ x, f.normalInverse = .ok x ∧
    x.matrix * (a.matrixᵀ * a.matrix) = 1 ∧ a.matrixᵀ * a.matrix * x.matrix = 1

theorem normalInverse_of_le (hrank : n ≤ (a.pivotedQr fixed).rank) :
    ∃ x, (a.pivotedQr fixed).normalInverse = .ok x ∧
      x.matrix * (a.matrixᵀ * a.matrix) = 1 ∧ a.matrixᵀ * a.matrix * x.matrix = 1 := by
  obtain ⟨hmn, hfull⟩ := (ends_pivotedQr a fixed).full_of_le hrank
  obtain ⟨x, hx, hinverse⟩ := normalInverse_spec hmn hfull
  have hunit : IsUnit (a.matrixᵀ * a.matrix).det := by
    rw [← isUnit_iff_isUnit_det, ← normalMatrix_eq hmn hfull]
    exact (posDef_normalMatrix hmn hfull).isUnit
  refine ⟨x, hx, ?_, ?_⟩
  · rw [hinverse, nonsing_inv_mul _ hunit]
  · rw [hinverse, mul_nonsing_inv _ hunit]

theorem normal_pivotedQr (a : Dense ℝ m n) (fixed : Nat) : (a.pivotedQr fixed).Normal a where
  posSemidef := (ends_pivotedQr a fixed).factored.posSemidef_missed
  full := (ends_pivotedQr a fixed).factored.normalMatrix_of_full
  error e := by
    constructor
    · intro he
      rcases Nat.lt_or_ge (a.pivotedQr fixed).rank n with hlt | hge
      · rw [normalInverse, if_pos hlt] at he
        exact ⟨hlt, (Except.error.inj he).symm⟩
      · obtain ⟨x, hx, -⟩ := normalInverse_of_le hge
        rw [hx] at he
        cases he
    · rintro ⟨hlt, rfl⟩
      exact if_pos hlt
  inverse := normalInverse_of_le

end PivotedQr

/-- In exact arithmetic the normal matrix that a factorization gives is the one of the whole matrix
but for a positive semidefinite part. If the longest column is always chosen, each entry of that
part is small, and there is none when all steps were taken. The inverse is refused for a rank
below the number of columns, and is one of the whole normal matrix otherwise. -/
theorem pivotedQr_normal (a : Dense ℝ m n) (fixed : Nat) :
    (a.pivotedQr fixed).Normal a ∧
    ∀ i j, ∃ l, IsGreatest (Set.range fun j => Geometry.norm (a.column j)) l ∧
      |(a.matrixᵀ * a.matrix - (a.pivotedQr 0).normalMatrix.matrix) i j| ≤
        max (rankTolerance * l) sqrtTiny ^ 2 := by
  have hends := PivotedQr.ends_pivotedQr a 0
  refine ⟨PivotedQr.normal_pivotedQr a fixed, fun i j => ?_⟩
  exact ⟨a.longest, a.isGreatest_longest i, hends.factored.abs_missed_le hends.falling i j⟩

end LeastSquares
