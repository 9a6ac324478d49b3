import LeastSquares.Proofs.Linear.Coordinates
import LeastSquares.TrustStep.Basic

namespace LeastSquares

open Matrix

variable {n : Nat}

theorem leastOf_eq_min? (l : List ℝ) : leastOf l = l.min? := by
  cases l with
  | nil => rfl
  | cons u l => exact List.foldl_hom some fun _ _ => rfl

theorem greatestOf_eq_max? (l : List ℝ) : greatestOf l = l.max? := by
  cases l with
  | nil => rfl
  | cons u l => exact List.foldl_hom some fun _ _ => rfl

theorem isLeast_leastOf (f : Fin n → ℝ) (hn : 0 < n) (d : ℝ) :
    IsLeast (Set.range f) ((leastOf ((List.finRange n).map f)).getD d) := by
  have hne : List.ofFn f ≠ [] := by simpa using hn.ne'
  obtain ⟨m, hm⟩ := Option.isSome_iff_exists.mp (List.isSome_min?_of_ne_nil hne)
  obtain ⟨hmem, hle⟩ := List.min?_eq_some_iff.mp hm
  rw [leastOf_eq_min?, ← List.ofFn_eq_map, hm]
  exact ⟨List.mem_ofFn.mp hmem, fun v hv => hle v (List.mem_ofFn.mpr hv)⟩

theorem isGreatest_greatestOf (f : Fin n → ℝ) (hn : 0 < n) (d : ℝ) :
    IsGreatest (Set.range f) ((greatestOf ((List.finRange n).map f)).getD d) := by
  have hne : List.ofFn f ≠ [] := by simpa using hn.ne'
  obtain ⟨m, hm⟩ := Option.isSome_iff_exists.mp (List.isSome_max?_of_ne_nil hne)
  obtain ⟨hmem, hle⟩ := List.max?_eq_some_iff.mp hm
  rw [greatestOf_eq_max?, ← List.ofFn_eq_map, hm]
  exact ⟨List.mem_ofFn.mp hmem, fun v hv => hle v (List.mem_ofFn.mpr hv)⟩

namespace Symmetric

variable (a : Symmetric ℝ n)

theorem circleRadius_eq (i : Fin n) :
    a.circleRadius i = ∑ j ∈ Finset.univ.erase i, |a.get i j| := by
  rw [circleRadius, sumOver_eq_sum ((List.nodup_finRange n).filter _)]
  apply Finset.sum_congr _ fun j _ => rfl
  ext j
  simp

theorem neg_half_le_mul (c x y : ℝ) :
    -1 / 2 * (|c| * (x * x) + |c| * (y * y)) ≤ x * (c * y) := by
  have hprod : -(|c| * (|x| * |y|)) ≤ x * (c * y) := by
    have h := neg_abs_le (x * (c * y))
    rw [abs_mul, abs_mul] at h
    linarith
  have hsquare : 0 ≤ |c| * ((|x| - |y|) * (|x| - |y|)) :=
    mul_nonneg (abs_nonneg _) (mul_self_nonneg _)
  rw [← abs_mul_abs_self x, ← abs_mul_abs_self y]
  linarith

theorem sum_erase_comm (v : Fin n → ℝ) :
    ∑ i, ∑ j ∈ Finset.univ.erase i, |a.get i j| * (v j * v j) =
      ∑ i, ∑ j ∈ Finset.univ.erase i, |a.get i j| * (v i * v i) := by
  rw [Finset.sum_comm' (show ∀ i j : Fin n, i ∈ Finset.univ ∧ j ∈ Finset.univ.erase i ↔
    i ∈ Finset.univ.erase j ∧ j ∈ Finset.univ by simp [eq_comm])]
  simp only [a.get_comm]

theorem sum_circles_le (v : Fin n → ℝ) :
    ∑ i, (a.get i i - a.circleRadius i) * (v i * v i) ≤ v ⬝ᵥ a.matrix *ᵥ v := by
  have hsplit : v ⬝ᵥ a.matrix *ᵥ v = ∑ i, (v i * (a.get i i * v i) +
      ∑ j ∈ Finset.univ.erase i, v i * (a.get i j * v j)) := by
    simp only [dotProduct, Matrix.mulVec, Finset.mul_sum, matrix_apply]
    apply Finset.sum_congr rfl
    intro i _
    rw [← Finset.add_sum_erase _ _ (Finset.mem_univ i)]
  have hrows : ∑ i, ∑ j ∈ Finset.univ.erase i,
      -1 / 2 * (|a.get i j| * (v i * v i) + |a.get i j| * (v j * v j)) ≤
      ∑ i, ∑ j ∈ Finset.univ.erase i, v i * (a.get i j * v j) :=
    Finset.sum_le_sum fun i _ => Finset.sum_le_sum fun j _ => neg_half_le_mul _ _ _
  have hradii : ∑ i, ∑ j ∈ Finset.univ.erase i,
      -1 / 2 * (|a.get i j| * (v i * v i) + |a.get i j| * (v j * v j)) =
      -∑ i, a.circleRadius i * (v i * v i) := by
    simp only [← Finset.mul_sum, Finset.sum_add_distrib, a.sum_erase_comm, circleRadius_eq,
      Finset.sum_mul]
    ring
  rw [hsplit, Finset.sum_add_distrib]
  simp only [sub_mul, Finset.sum_sub_distrib]
  rw [hradii] at hrows
  have hdiag : ∑ i, a.get i i * (v i * v i) = ∑ i, v i * (a.get i i * v i) :=
    Finset.sum_congr rfl fun i _ => by ring
  linarith

theorem le_sum_circles (v : Fin n → ℝ) :
    v ⬝ᵥ a.matrix *ᵥ v ≤ ∑ i, (a.get i i + a.circleRadius i) * (v i * v i) := by
  let b : Symmetric ℝ n := .ofFn fun i j => -a.get i j
  have hget (i j : Fin n) : b.get i j = -a.get i j := by
    rw [get_ofFn]
    split
    · rfl
    · rw [a.get_comm]
  have hradius (i : Fin n) : b.circleRadius i = a.circleRadius i := by
    simp only [circleRadius_eq, hget, abs_neg]
  have hmatrix : b.matrix = -a.matrix := by
    ext i j
    exact hget i j
  have hbelow := b.sum_circles_le v
  have hsum : ∑ i, (b.get i i - b.circleRadius i) * (v i * v i) =
      -∑ i, (a.get i i + a.circleRadius i) * (v i * v i) := by
    rw [← Finset.sum_neg_distrib]
    exact Finset.sum_congr rfl fun i _ => by rw [hget, hradius]; ring
  rw [hsum, hmatrix, neg_mulVec, dotProduct_neg] at hbelow
  exact neg_le_neg_iff.mp hbelow

theorem isLeast_gershgorin_fst (hn : 0 < n) :
    IsLeast (Set.range fun i => a.get i i - a.circleRadius i) a.gershgorin.1 :=
  isLeast_leastOf _ hn _

theorem isGreatest_gershgorin_snd (hn : 0 < n) :
    IsGreatest (Set.range fun i => a.get i i + a.circleRadius i) a.gershgorin.2 :=
  isGreatest_greatestOf _ hn _

theorem gershgorin_fst_le (i : Fin n) : a.gershgorin.1 ≤ a.get i i - a.circleRadius i :=
  (a.isLeast_gershgorin_fst i.pos).2 ⟨i, rfl⟩

theorem gershgorin_fst_mul_le (v : Fin n → ℝ) :
    a.gershgorin.1 * (v ⬝ᵥ v) ≤ v ⬝ᵥ a.matrix *ᵥ v := by
  apply le_trans _ (a.sum_circles_le v)
  rw [dotProduct, Finset.mul_sum]
  apply Finset.sum_le_sum
  intro i _
  exact mul_le_mul_of_nonneg_right (a.gershgorin_fst_le i) (mul_self_nonneg (v i))

theorem le_gershgorin_snd (i : Fin n) : a.get i i + a.circleRadius i ≤ a.gershgorin.2 :=
  (a.isGreatest_gershgorin_snd i.pos).2 ⟨i, rfl⟩

theorem le_gershgorin_snd_mul (v : Fin n → ℝ) :
    v ⬝ᵥ a.matrix *ᵥ v ≤ a.gershgorin.2 * (v ⬝ᵥ v) := by
  apply (a.le_sum_circles v).trans
  rw [dotProduct, Finset.mul_sum]
  apply Finset.sum_le_sum
  intro i _
  exact mul_le_mul_of_nonneg_right (a.le_gershgorin_snd i) (mul_self_nonneg (v i))

theorem posDef_addToDiagonal {c : ℝ} (hc : -a.gershgorin.1 < c) :
    (a.addToDiagonal c).matrix.PosDef := by
  rw [posDef_iff]
  intro v hv
  have hpos := dotProduct_self_pos hv
  rw [matrix_addToDiagonal, add_mulVec, smul_mulVec, one_mulVec, dotProduct_add, dotProduct_smul,
    smul_eq_mul]
  have hform := a.gershgorin_fst_mul_le v
  have hshift := mul_lt_mul_of_pos_right hc hpos
  linarith

end Symmetric

end LeastSquares
