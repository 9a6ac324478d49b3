import LeastSquares.Proofs.Linear.Coordinates

namespace LeastSquares

open Matrix

variable {n : Nat}

theorem sum_Iic (f : Fin n → ℝ) (i : Fin n) :
    ∑ j ∈ Finset.Iic i, f j = ∑ j ∈ Finset.Iio i, f j + f i := by
  rw [← Finset.Iio_insert, Finset.sum_insert Finset.notMem_Iio_self, add_comm]

theorem sum_Ici (f : Fin n → ℝ) (i : Fin n) :
    ∑ j ∈ Finset.Ici i, f j = f i + ∑ j ∈ Finset.Ioi i, f j := by
  rw [← Finset.Ioi_insert, Finset.sum_insert Finset.notMem_Ioi_self]

theorem coords_set (x : Vector ℝ n) (i : Fin n) (v : ℝ) :
    coords (x.set i v i.isLt) = Function.update (coords x) i v := by
  funext j
  simp only [coords, getElem_place, Vector.getElem_set, Function.update_apply, Fin.ext_iff,
    eq_comm]

theorem coords_set_add (x : Vector ℝ n) (i : Fin n) (h : ℝ) :
    coords (x.set i (x[i] + h) i.isLt) = coords x + Pi.single i h := by
  rw [coords_set]
  funext j
  by_cases hj : j = i
  · subst hj
    simp [coords_apply]
  · simp [hj]

theorem sum_mul_update {s : Finset (Fin n)} {i : Fin n} (hi : i ∉ s) (c x : Fin n → ℝ) (v : ℝ) :
    ∑ j ∈ s, c j * Function.update x i v j = ∑ j ∈ s, c j * x j := by
  apply Finset.sum_congr rfl
  intro j hj
  rw [Function.update_of_ne (ne_of_mem_of_not_mem hj hi)]

namespace Lower

variable (l : Lower ℝ n)

theorem get_set_self {i j : Fin n} (h : j ≤ i) (v : ℝ) : (l.set i j v).get i j = v := by
  rw [get_set l h, if_pos ⟨rfl, rfl⟩]

theorem get_set_of_row_ne {i j k : Fin n} (h : j ≤ i) (v : ℝ) (hk : k ≠ i) (m : Fin n) :
    (l.set i j v).get k m = l.get k m := by
  rw [get_set l h, if_neg fun e => hk e.1.symm]

theorem get_set_of_column_ne {i j m : Fin n} (h : j ≤ i) (v : ℝ) (hm : m ≠ j) (k : Fin n) :
    (l.set i j v).get k m = l.get k m := by
  rw [get_set l h, if_neg fun e => hm e.2.symm]

def PositiveDiagonal : Prop := ∀ i, 0 < l.get i i

theorem coords_forwardStep (x : Vector ℝ n) (i : Fin n) :
    coords (l.forwardStep x i) = Function.update (coords x) i
      ((coords x i - ∑ j ∈ Finset.Iio i, l.get i j * coords x j) / l.get i i) := by
  rw [forwardStep, coords_set, lessOver_below]
  rfl

theorem coords_backwardStep (i : Fin n) (x : Vector ℝ n) :
    coords (l.backwardStep i x) = Function.update (coords x) i
      ((coords x i - ∑ j ∈ Finset.Ioi i, coords x j * l.get j i) / l.get i i) := by
  rw [backwardStep, coords_set, lessOver_above_reverse]
  rfl

variable {l}

theorem matrix_mulVec_forward (hl : ∀ i, l.get i i ≠ 0) (y : Vector ℝ n) :
    l.matrix *ᵥ coords (l.forward y) = coords y := by
  have h := foldl_finRange_induction (f := l.forwardStep) (b := y)
    (fun k x => (∀ i : Fin n, i < k → (l.matrix *ᵥ coords x) i = coords y i) ∧
      ∀ i : Fin n, k ≤ i → coords x i = coords y i)
    ⟨by simp, by simp⟩ ?turn
  · funext i
    exact h.1 i i.isLt
  · rintro i x ⟨hsolved, hrest⟩
    rw [coords_forwardStep]
    constructor
    · intro k hk
      rw [mulVec_apply, sum_Iic]
      rcases Nat.lt_succ_iff_lt_or_eq.mp hk with hki | hki
      · have hlater : i ∉ Finset.Iio k := fun h => (Finset.mem_Iio.mp h).not_gt hki
        rw [sum_mul_update hlater, Function.update_of_ne (Fin.ne_of_lt hki), ← hsolved k hki,
          mulVec_apply, sum_Iic]
      · obtain rfl : k = i := Fin.ext hki
        rw [sum_mul_update Finset.notMem_Iio_self, Function.update_self,
          mul_div_cancel₀ _ (hl k), hrest k (le_refl _)]
        ring
    · intro k hk
      have hki : k ≠ i := fun h => by subst h; omega
      rw [Function.update_of_ne hki]
      exact hrest k (by omega)

theorem matrix_transpose_mulVec_backward (hl : ∀ i, l.get i i ≠ 0) (y : Vector ℝ n) :
    l.matrixᵀ *ᵥ coords (l.backward y) = coords y := by
  have h := foldr_finRange_induction (f := l.backwardStep) (b := y)
    (fun k x => (∀ i : Fin n, k ≤ i → (l.matrixᵀ *ᵥ coords x) i = coords y i) ∧
      ∀ i : Fin n, i < k → coords x i = coords y i)
    ⟨fun i hi => absurd i.isLt (by omega), by simp⟩ ?turn
  · funext i
    exact h.1 i (Nat.zero_le _)
  · rintro i x ⟨hsolved, hrest⟩
    rw [coords_backwardStep]
    constructor
    · intro k hk
      rw [transpose_mulVec_apply, sum_Ici]
      rcases Nat.lt_or_eq_of_le hk with hik | hik
      · have hbefore : i ∉ Finset.Ioi k := fun h => (Finset.mem_Ioi.mp h).not_gt hik
        rw [sum_mul_update hbefore, Function.update_of_ne (Fin.ne_of_gt hik), ← hsolved k hik,
          transpose_mulVec_apply, sum_Ici]
      · obtain rfl : i = k := Fin.ext hik
        rw [sum_mul_update Finset.notMem_Ioi_self, Function.update_self,
          mul_div_cancel₀ _ (hl i), hrest i (Nat.lt_succ_self _)]
        simp only [mul_comm (l.get _ i)]
        ring
    · intro k hk
      rw [Function.update_of_ne (Fin.ne_of_lt hk)]
      exact hrest k (Nat.lt_succ_of_lt hk)

theorem PositiveDiagonal.ne_zero (hl : l.PositiveDiagonal) (i : Fin n) : l.get i i ≠ 0 :=
  (hl i).ne'

theorem zeroPivot_iff {i : Fin n} : l.zeroPivot i = true ↔ l.get i i = 0 := beq_iff

theorem firstZero?_eq_none_iff : l.firstZero? = none ↔ ∀ i, l.get i i ≠ 0 := by
  rw [firstZero?, List.find?_eq_none]
  simp [zeroPivot_iff]

theorem lastZero?_eq_none_iff : l.lastZero? = none ↔ ∀ i, l.get i i ≠ 0 := by
  rw [lastZero?, List.find?_eq_none]
  simp [zeroPivot_iff]

theorem solve_eq_ok (hl : l.PositiveDiagonal) (y : Vector ℝ n) : l.solve y = .ok (l.forward y) := by
  rw [solve, firstZero?_eq_none_iff.mpr hl.ne_zero]

theorem solveTranspose_eq_ok (hl : l.PositiveDiagonal) (y : Vector ℝ n) :
    l.solveTranspose y = .ok (l.backward y) := by
  rw [solveTranspose, lastZero?_eq_none_iff.mpr hl.ne_zero]

theorem solve_spec (hl : l.PositiveDiagonal) {x y : Vector ℝ n} (h : l.solve y = .ok x) :
    l.matrix *ᵥ coords x = coords y := by
  rw [solve_eq_ok hl, Except.ok.injEq] at h
  rw [← h]
  exact matrix_mulVec_forward hl.ne_zero y

theorem solveTranspose_spec (hl : l.PositiveDiagonal) {x y : Vector ℝ n}
    (h : l.solveTranspose y = .ok x) : l.matrixᵀ *ᵥ coords x = coords y := by
  rw [solveTranspose_eq_ok hl, Except.ok.injEq] at h
  rw [← h]
  exact matrix_transpose_mulVec_backward hl.ne_zero y

end Lower

end LeastSquares
