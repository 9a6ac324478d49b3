import LeastSquares.Proofs.Linear.Normal
import LeastSquares.Proofs.Packed.Storage

namespace LeastSquares

open Matrix

variable {m n k : Nat}

namespace Dense

theorem matrix_apply (a : Dense ℝ m n) (i : Fin m) (j : Fin n) : a.matrix i j = a.get i j := rfl

theorem matrix_injective :
    Function.Injective (matrix : Dense ℝ m n → Matrix (Fin m) (Fin n) ℝ) :=
  fun _ _ h => ext_get fun i j => congrFun (congrFun h i) j

theorem matrix_ofFn (f : Fin m → Fin n → ℝ) : (ofFn f).matrix = of f := by
  ext i j
  rw [matrix_apply, get_ofFn, of_apply]

theorem isSymm_normal (a : Dense ℝ m n) : (a.matrixᵀ * a.matrix).IsSymm := by
  rw [IsSymm, transpose_mul, transpose_transpose]

theorem matrix_transpose (a : Dense ℝ m n) : a.transpose.matrix = a.matrixᵀ := by
  rw [transpose, matrix_ofFn]
  rfl

theorem matrix_add (a b : Dense ℝ m n) : (a.add b).matrix = a.matrix + b.matrix := by
  ext i j
  simp [matrix_apply, get, add]

theorem matrix_scale (a : Dense ℝ m n) (c : ℝ) : (a.scale c).matrix = c • a.matrix := by
  ext i j
  simp [matrix_apply, get, scale, mul_comm c]

theorem matrix_mul (a : Dense ℝ m k) (b : Dense ℝ k n) :
    (a.mul b).matrix = a.matrix * b.matrix := by
  rw [mul, matrix_ofFn]
  ext i j
  rw [of_apply, sumOver_finRange, Matrix.mul_apply]
  rfl

end Dense

theorem Symmetric.matrix_toDense (a : Symmetric ℝ n) : a.toDense.matrix = a.matrix :=
  Dense.matrix_ofFn a.get

theorem Symmetric.matrix_ofDense {a : Dense ℝ n n} (ha : a.matrix.IsSymm) :
    (ofDense a).matrix = a.matrix := by
  apply matrix_eq_of_le ha
  intro i j hj
  rw [ofDense, get_ofFn, if_pos hj]
  rfl

namespace Lower

variable (l : Lower ℝ n)

theorem mul_apply (x : Lower ℝ n) (i j : Fin n) :
    (l.matrix * x.matrix) i j = ∑ k ∈ Finset.Icc j i, l.get i k * x.get k j := by
  rw [Matrix.mul_apply]
  symm
  apply Finset.sum_subset (Finset.subset_univ _)
  intro k _ hk
  rw [Finset.mem_Icc, not_and_or, not_le, not_le] at hk
  rcases hk with hk | hk
  · rw [x.get_of_lt hk, mul_zero]
  · rw [l.get_of_lt hk, zero_mul]

theorem transposeTimesSelf_matrix : l.transposeTimesSelf.matrix = l.matrixᵀ * l.matrix := by
  apply Symmetric.matrix_eq_of_le (isSymm_transpose_mul_self _)
  intro i j hj
  rw [transposeTimesSelf, Symmetric.get_ofFn, if_pos hj, sumOver_eq_sum (nodup_onwards i),
    Matrix.mul_apply]
  apply Finset.sum_subset (Finset.subset_univ _)
  intro k _ hk
  rw [List.mem_toFinset, onwards, mem_drop_finRange, not_le] at hk
  rw [l.get_of_lt hk, zero_mul]

/-- Row `i` of an inverse whose earlier rows `x` holds. -/
structure InverseRow (x : Lower ℝ n) (i : Fin n) (k : Nat) (y : Lower ℝ n) : Prop where
  others : ∀ r j : Fin n, r ≠ i → y.get r j = x.get r j
  diagonal : y.get i i = 1 / l.get i i
  entries : ∀ j : Fin n, j < k → j < i →
    y.get i j = -(∑ r ∈ Finset.Ico j i, l.get i r * x.get r j) / l.get i i

theorem inverseRow_spec (x : Lower ℝ n) (i : Fin n) : l.InverseRow x i i (l.inverseRow x i) := by
  apply foldl_take_induction (l.InverseRow x i) (Nat.le_of_lt i.isLt)
  · exact ⟨fun r j hr => x.get_set_of_row_ne le_rfl _ hr j, x.get_set_self le_rfl _,
      fun j hj => absurd hj (Nat.not_lt_zero _)⟩
  · intro j y hji hy
    have hle : j ≤ i := Fin.le_of_lt hji
    have hmem : ((below i).drop j).toFinset = Finset.Ico j i := by
      ext r
      rw [List.mem_toFinset, below, mem_drop_take_finRange, Finset.mem_Ico]
      rfl
    have hsum : sumOver ((below i).drop j) (fun r => l.get i r * y.get r j) =
        ∑ r ∈ Finset.Ico j i, l.get i r * x.get r j := by
      rw [sumOver_eq_sum ((nodup_below i).sublist (List.drop_sublist _ _)), hmem]
      apply Finset.sum_congr rfl
      intro r hr
      rw [hy.others r j (Finset.mem_Ico.mp hr).2.ne]
    refine ⟨fun r s hr => ?_, ?_, fun s hs hsi => ?_⟩
    · rw [y.get_set_of_row_ne hle _ hr]
      exact hy.others r s hr
    · rw [y.get_set_of_column_ne hle _ (Fin.ne_of_gt hji)]
      exact hy.diagonal
    · rcases Nat.lt_succ_iff_lt_or_eq.mp hs with hlt | heq
      · have hne : s ≠ j := Fin.ne_of_lt hlt
        rw [y.get_set_of_column_ne hle _ hne]
        exact hy.entries s hlt hsi
      · obtain rfl : s = j := Fin.ext heq
        rw [y.get_set_self hle, hsum]

variable {l} (hl : ∀ i, l.get i i ≠ 0)
include hl

theorem InverseRow.mul_apply {x y : Lower ℝ n} {i : Fin n} (h : l.InverseRow x i i y) (j : Fin n) :
    (l.matrix * y.matrix) i j = (1 : Matrix (Fin n) (Fin n) ℝ) i j := by
  rw [Lower.mul_apply]
  rcases lt_trichotomy j i with hji | rfl | hji
  · have hsum : ∑ r ∈ Finset.Ico j i, l.get i r * y.get r j =
        ∑ r ∈ Finset.Ico j i, l.get i r * x.get r j :=
      Finset.sum_congr rfl fun r hr => by rw [h.others r j (Finset.mem_Ico.mp hr).2.ne]
    rw [← Finset.Ico_insert_right hji.le, Finset.sum_insert Finset.right_notMem_Ico, hsum,
      h.entries j hji hji, mul_div_cancel₀ _ (hl i), neg_add_cancel, one_apply_ne hji.ne']
  · rw [Finset.Icc_self, Finset.sum_singleton, h.diagonal, mul_one_div_cancel (hl j), one_apply_eq]
  · rw [Finset.Icc_eq_empty (not_le.mpr hji), Finset.sum_empty, one_apply_ne hji.ne]

theorem invert_spec : ∃ x, l.invert = .ok x ∧ l.matrix * x.matrix = 1 := by
  have hrows := foldl_finRange_induction (f := l.inverseRow) (b := zeros n)
    (fun k x => ∀ i j : Fin n, i < k → (l.matrix * x.matrix) i j =
      (1 : Matrix (Fin n) (Fin n) ℝ) i j)
    (fun i _ hi => absurd hi (Nat.not_lt_zero _)) ?turn
  · refine ⟨_, ?_, Matrix.ext fun i j => hrows i j i.isLt⟩
    rw [invert, firstZero?_eq_none_iff.mpr hl]
  · intro i x hx r j hr
    have hrow := l.inverseRow_spec x i
    rcases Nat.lt_succ_iff_lt_or_eq.mp hr with hlt | heq
    · rw [← hx r j hlt, l.mul_apply, l.mul_apply]
      apply Finset.sum_congr rfl
      intro k hk
      have hki : k < i := lt_of_le_of_lt (Finset.mem_Icc.mp hk).2 hlt
      rw [hrow.others k j hki.ne]
    · obtain rfl : r = i := Fin.ext heq
      exact hrow.mul_apply hl j

theorem invert_transposeTimesSelf : ∃ x, l.invert = .ok x ∧
    x.transposeTimesSelf.matrix = (l.matrix * l.matrixᵀ)⁻¹ := by
  obtain ⟨x, hx, hinverse⟩ := invert_spec hl
  have hleft : x.matrix * l.matrix = 1 := mul_eq_one_comm.mp hinverse
  refine ⟨x, hx, ?_⟩
  rw [transposeTimesSelf_matrix]
  symm
  apply inv_eq_left_inv
  calc x.matrixᵀ * x.matrix * (l.matrix * l.matrixᵀ)
      = x.matrixᵀ * (x.matrix * l.matrix) * l.matrixᵀ := by simp only [Matrix.mul_assoc]
    _ = 1 := by rw [hleft, Matrix.mul_one, ← transpose_mul, hinverse, transpose_one]

end Lower

namespace PivotedQr

variable {a : Dense ℝ m n} {fixed : Nat}

theorem normalInverse_spec (hmn : n ≤ m) (hfull : (a.pivotedQr fixed).status = .fullRank) :
    ∃ x, (a.pivotedQr fixed).normalInverse = .ok x ∧ x.matrix = (a.matrixᵀ * a.matrix)⁻¹ := by
  obtain ⟨hrank, hw⟩ := factors_of_fullRank hmn hfull
  have hnormal := normalMatrix_eq hmn hfull
  generalize a.pivotedQr fixed = f at hrank hw hnormal
  let e := Equiv.ofBijective _ ⟨hw.injective, Finite.surjective_of_injective hw.injective⟩
  obtain ⟨x, hx, hinverse⟩ :=
    Lower.invert_transposeTimesSelf (rTranspose_diagonal_ne_zero hw hrank)
  have hpermuted : (a.matrixᵀ * a.matrix).submatrix e e =
      f.rTranspose.matrix * f.rTranspose.matrixᵀ := by
    rw [← hnormal]
    ext i j
    exact normalMatrix_permutation hw.injective i j
  refine ⟨x.transposeTimesSelf.permuted f.sweep.permutation, ?_, ?_⟩
  · rw [normalInverse, if_neg hrank.not_lt, hx]
    rfl
  · have hplaces : (x.transposeTimesSelf.permuted f.sweep.permutation).matrix.submatrix e e =
        (a.matrixᵀ * a.matrix)⁻¹.submatrix e e := by
      rw [← inv_submatrix_equiv, hpermuted, ← hinverse]
      ext i j
      exact Symmetric.get_permuted _ hw.injective i j
    ext r s
    obtain ⟨i, rfl⟩ := e.surjective r
    obtain ⟨j, rfl⟩ := e.surjective s
    exact congrFun (congrFun hplaces i) j

end PivotedQr

end LeastSquares
