import LeastSquares.Proofs.Linear.Tracked

namespace LeastSquares

open Matrix

variable {n k : Nat}

def leading (m : Matrix (Fin n) (Fin n) ℝ) (k : Nat) (hk : k ≤ n) : Matrix (Fin k) (Fin k) ℝ :=
  m.submatrix (Fin.castLE hk) (Fin.castLE hk)

theorem posDef_leading {m : Matrix (Fin n) (Fin n) ℝ} {j : Nat} {hk : k ≤ n}
    (hm : (leading m k hk).PosDef) (hj : j ≤ k) : (leading m j (hj.trans hk)).PosDef :=
  hm.submatrix (Fin.castLE_injective hj)

theorem dotProduct_leading (m : Matrix (Fin n) (Fin n) ℝ) (hk : k ≤ n) {v : Fin n → ℝ}
    (hv : ∀ i : Fin n, k ≤ i → v i = 0) :
    (v ∘ Fin.castLE hk) ⬝ᵥ leading m k hk *ᵥ (v ∘ Fin.castLE hk) = v ⬝ᵥ m *ᵥ v := by
  have hrow (i : Fin n) : (m *ᵥ v) i = ∑ j : Fin k, m i (j.castLE hk) * v (j.castLE hk) :=
    sum_castLE hk fun j hj => by rw [hv j hj, mul_zero]
  have hall : v ⬝ᵥ m *ᵥ v = ∑ i : Fin k, v (i.castLE hk) * (m *ᵥ v) (i.castLE hk) :=
    sum_castLE hk fun i hi => by rw [hv i hi, zero_mul]
  rw [hall]
  simp only [hrow]
  rfl

theorem sum_Iio_castLE (i : Fin n) (f : Fin n → ℝ) :
    ∑ j ∈ Finset.Iio i, f j = ∑ j : Fin i, f (j.castLE i.isLt.le) := by
  have hmap : Finset.Iio i = Finset.univ.map (Fin.castLEEmb i.isLt.le) := by
    ext j
    simp only [Finset.mem_Iio, Finset.mem_map, Finset.mem_univ, true_and]
    exact ⟨fun h => ⟨⟨j, h⟩, rfl⟩, fun ⟨r, hr⟩ => hr ▸ r.isLt⟩
  rw [hmap, Finset.sum_map]
  rfl

namespace Lower

variable (l : Lower ℝ n) (hk : k ≤ n)

theorem leading_mulVec_row (i : Fin n) (j : Fin k) :
    (leading l.matrix k hk *ᵥ fun m => l.get i (m.castLE hk)) j =
      (l.matrix * l.matrixᵀ) (j.castLE hk) i := by
  have hproduct := sum_castLE hk (f := fun m => l.get (j.castLE hk) m * l.get i m)
    fun m hm => by rw [l.get_of_lt (Nat.lt_of_lt_of_le j.isLt hm), zero_mul]
  exact hproduct.symm

theorem leading_mul_transpose :
    leading l.matrix k hk * (leading l.matrix k hk)ᵀ = leading (l.matrix * l.matrixᵀ) k hk := by
  ext i j
  exact l.leading_mulVec_row hk (j.castLE hk) i

theorem det_leading_ne_zero (hl : ∀ i : Fin n, i < k → l.get i i ≠ 0) :
    (leading l.matrix k hk).det ≠ 0 := by
  rw [det_of_isLowerTriangular]
  · exact Finset.prod_ne_zero_iff.mpr fun i _ => hl (i.castLE hk) i.isLt
  · intro i j hij
    exact l.get_of_lt hij

end Lower

/-- What is left of the last diagonal entry once the rows before it are eliminated. -/
noncomputable def schur (m : Matrix (Fin n) (Fin n) ℝ) (k : Fin n) : ℝ :=
  let border (j : Fin k) : ℝ := m k (j.castLE k.isLt.le)
  m k k - border ⬝ᵥ (leading m k k.isLt.le)⁻¹ *ᵥ border

theorem dotProduct_inv_mul_transpose {m : Matrix (Fin k) (Fin k) ℝ} (hm : m.det ≠ 0)
    (r : Fin k → ℝ) : (m *ᵥ r) ⬝ᵥ (m * mᵀ)⁻¹ *ᵥ (m *ᵥ r) = r ⬝ᵥ r := by
  have hunit : IsUnit m.det := hm.isUnit
  have hsolve : (m * mᵀ)⁻¹ *ᵥ (m *ᵥ r) = mᵀ⁻¹ *ᵥ r := by
    rw [Matrix.mul_inv_rev, mulVec_mulVec, Matrix.mul_assoc, nonsing_inv_mul m hunit,
      Matrix.mul_one]
  have hback : mᵀ *ᵥ (mᵀ⁻¹ *ᵥ r) = r := by
    rw [mulVec_mulVec, mul_nonsing_inv _ (m.isUnit_det_transpose hunit), one_mulVec]
  calc (m *ᵥ r) ⬝ᵥ (m * mᵀ)⁻¹ *ᵥ (m *ᵥ r) = (m *ᵥ r) ⬝ᵥ (mᵀ⁻¹ *ᵥ r) := by rw [hsolve]
    _ = r ⬝ᵥ mᵀ *ᵥ (mᵀ⁻¹ *ᵥ r) := by rw [dotProduct_mulVec r, vecMul_transpose]
    _ = r ⬝ᵥ r := by rw [hback]

namespace Cholesky

variable {a : Symmetric ℝ n} {e : NotPositiveDefinite ℝ n}

/-- What a refused factorization tells of the matrix. -/
structure Refusal (a : Symmetric ℝ n) (e : NotPositiveDefinite ℝ n) : Prop where
  least : IsLeast {k : Fin n | ¬(leading a.matrix (k + 1) k.isLt).PosDef} e.index
  block : leading e.factor.matrix e.index e.index.isLt.le *
    (leading e.factor.matrix e.index e.index.isLt.le)ᵀ = leading a.matrix e.index e.index.isLt.le
  diagonal_pos : ∀ i, i < e.index → 0 < e.factor.get i i
  row : ∀ j, j < e.index → (e.factor.matrix * e.factor.matrixᵀ) e.index j = a.get e.index j
  reduced : e.factor.get e.index e.index =
    a.get e.index e.index - ∑ j ∈ Finset.Iio e.index, e.factor.get e.index j ^ 2
  schur : e.factor.get e.index e.index = schur a.matrix e.index
  nonpos : e.factor.get e.index e.index ≤ 0
  rest : ∀ i j, e.index < i → e.factor.get i j = 0

namespace Failed

variable (h : Failed a e)
include h

theorem mul_transpose_eq {i j : Fin n} (hi : i ≤ e.index) (hj : j < e.index) :
    (e.factor.matrix * e.factor.matrixᵀ) i j = a.get i j := by
  rcases Fin.le_total j i with hji | hij
  · rw [e.factor.mul_transpose_apply]
    exact h.product_eq i j hi hji hj
  · rw [← (isSymm_mul_transpose_self e.factor.matrix).apply, e.factor.mul_transpose_apply,
      a.get_comm]
    exact h.product_eq j i hj.le hij (Fin.lt_of_le_of_lt hij hj)

theorem leading_eq : leading e.factor.matrix e.index e.index.isLt.le *
    (leading e.factor.matrix e.index e.index.isLt.le)ᵀ =
      leading a.matrix e.index e.index.isLt.le := by
  rw [e.factor.leading_mul_transpose]
  ext i j
  exact h.mul_transpose_eq (Fin.le_of_lt i.isLt) j.isLt

theorem det_leading_ne_zero : (leading e.factor.matrix e.index e.index.isLt.le).det ≠ 0 :=
  e.factor.det_leading_ne_zero _ h.diagonal_ne_zero

theorem pivot_eq_schur : e.pivot = schur a.matrix e.index := by
  have hborder : (fun j : Fin e.index => a.matrix e.index (j.castLE e.index.isLt.le)) =
      leading e.factor.matrix e.index e.index.isLt.le *ᵥ
        fun j => e.factor.get e.index (j.castLE e.index.isLt.le) := by
    funext j
    rw [e.factor.leading_mulVec_row, ← (isSymm_mul_transpose_self e.factor.matrix).apply]
    exact (h.mul_transpose_eq le_rfl j.isLt).symm
  rw [h.pivot_eq, sum_Iio_castLE, schur, hborder, ← h.leading_eq,
    dotProduct_inv_mul_transpose h.det_leading_ne_zero]
  rfl

theorem not_posDef_leading : ¬(leading a.matrix (e.index + 1) e.index.isLt).PosDef := by
  obtain ⟨hone, hzero, -⟩ := NotPositiveDefinite.direction_spec h.diagonal_ne_zero
  have hne : coords e.direction ∘ Fin.castLE e.index.isLt ≠ 0 := by
    intro h0
    have hlast := congrFun h0 (Fin.last e.index)
    exact one_ne_zero (hone.symm.trans hlast)
  apply not_posDef_of_form hne
  rw [dotProduct_leading a.matrix e.index.isLt hzero,
    NotPositiveDefinite.quadraticForm_direction h]
  exact h.pivot_nonpos

theorem isLeast : IsLeast {k : Fin n | ¬(leading a.matrix (k + 1) k.isLt).PosDef} e.index := by
  have hblock : (leading a.matrix e.index e.index.isLt.le).PosDef := by
    rw [← h.leading_eq]
    exact posDef_mul_transpose h.det_leading_ne_zero
  refine ⟨h.not_posDef_leading, fun k hk => ?_⟩
  by_contra hlt
  exact hk (posDef_leading hblock (not_le.mp hlt))

theorem refusal : Refusal a e where
  least := h.isLeast
  block := h.leading_eq
  diagonal_pos := h.diagonal_pos
  row _ hj := h.mul_transpose_eq le_rfl hj
  reduced := h.pivot_eq_sq
  schur := h.pivot_eq_schur
  nonpos := h.pivot_nonpos
  rest := h.rest

end Failed

end Cholesky

/-- The factorization decides whether a matrix is positive definite, and tells where it stops
being so. -/
theorem cholesky_decides (a : Symmetric ℝ n) :
    ((∃ l, a.cholesky = .ok l) ↔ a.matrix.PosDef) ∧
      (∀ l, a.cholesky = .ok l → l.matrix * l.matrixᵀ = a.matrix ∧ ∀ i, 0 < l.get i i) ∧
      (∀ e, a.cholesky = .error e → Cholesky.Refusal a e) ∧
      a.tracked.cholesky =
        (a.cholesky.map Lower.tracked).mapError NotPositiveDefinite.tracked := by
  refine ⟨⟨?_, Symmetric.exists_cholesky_of_posDef⟩, ?_, ?_, a.cholesky_tracked⟩
  · rintro ⟨l, hl⟩
    exact Symmetric.posDef_of_cholesky hl
  · intro l hl
    exact ⟨Symmetric.cholesky_product hl, Symmetric.cholesky_positiveDiagonal hl⟩
  · intro e he
    exact ((Cholesky.rows_spec a).2 e he).refusal

end LeastSquares
