import LeastSquares.Proofs.Linear.Curvature
import LeastSquares.Proofs.Linear.Singular
import LeastSquares.Proofs.Packed.Operations
import Mathlib.Analysis.InnerProductSpace.SingularValues
import Mathlib.Analysis.Matrix.Spectrum
import Mathlib.Tactic.NormNum.Prime

namespace LeastSquares

open Matrix

variable {n : Nat}

theorem draw_bounds (k : Nat) : 0 < draw k ∧ draw k < 9973 := by
  induction k with
  | zero => decide
  | succ k ih =>
    have hprime : Nat.Prime 9973 := by norm_num
    refine ⟨Nat.pos_of_ne_zero fun hzero => ?_, Nat.mod_lt _ (by decide)⟩
    rcases hprime.dvd_mul.mp (Nat.dvd_of_mod_eq_zero hzero) with h | h
    · revert h
      decide
    · exact absurd (Nat.le_of_dvd ih.1 h) (Nat.not_le.mpr ih.2)

theorem draw_product_lt (k : Nat) : 3432 * draw k < UInt32.size := by
  have hk := (draw_bounds k).2
  change 3432 * draw k < 4294967296
  omega

theorem Symmetric.exists_spectrum_le (a : Symmetric ℝ n) {v : Fin n → ℝ} (hv : v ≠ 0) {c : ℝ}
    (h : v ⬝ᵥ a.matrix *ᵥ v ≤ c * (v ⬝ᵥ v)) : ∃ m ∈ spectrum ℝ a.matrix, m ≤ c := by
  by_contra hnone
  push Not at hnone
  have hdef : (a.addToDiagonal (-c)).matrix.PosDef :=
    posDef_of_spectrum fun m hm => by rw [neg_neg]; exact hnone m hm
  have hpos := (posDef_iff _).mp hdef v hv
  rw [dotProduct_addToDiagonal] at hpos
  linarith

theorem singularValues_last_le {m : Matrix (Fin n) (Fin n) ℝ} {s c : ℝ} (hs : 0 ≤ s)
    (hc : c ∈ spectrum ℝ (mᵀ * m)) (hcs : c ≤ s ^ 2) :
    (toEuclideanLin m).singularValues (n - 1) ≤ s := by
  let t := toEuclideanLin m
  have hnormal : LinearMap.adjoint t ∘ₗ t = toEuclideanLin (mᵀ * m) := by
    rw [← toEuclideanLin_conjTranspose_eq_adjoint, conjTranspose_eq_transpose_of_trivial]
    exact (toLpLin_mul_same 2 mᵀ m).symm
  rw [← spectrum_toLpLin 2, ← hnormal] at hc
  obtain ⟨i, hi⟩ := t.isSymmetric_adjoint_comp_self.exists_eigenvalues_eq finrank_euclideanSpace_fin
    (Module.End.HasEigenvalue.of_mem_spectrum hc)
  have hlast : t.singularValues (n - 1) ≤ t.singularValues i :=
    t.singularValues_antitone (Nat.le_sub_one_of_lt i.isLt)
  refine hlast.trans (le_of_sq_le_sq ?_ hs)
  rw [t.sq_singularValues_fin finrank_euclideanSpace_fin]
  exact hi.le.trans hcs

namespace Lower

variable {l : Lower ℝ n}

theorem weight_eq (k : Nat) : (weight k : ℝ) = 1 / 2 * (1 + (draw (k + 1) : ℝ) / 9973) := rfl

theorem weight_within (k : Nat) : (1 / 2 : ℝ) < weight k ∧ (weight k : ℝ) < 1 := by
  obtain ⟨hpos, hlt⟩ := draw_bounds (k + 1)
  have hpos' : (0 : ℝ) < draw (k + 1) / 9973 := div_pos (Nat.cast_pos.mpr hpos) (by norm_num)
  have hlt' : (draw (k + 1) : ℝ) / 9973 < 1 := by
    rw [div_lt_one (by norm_num)]
    exact_mod_cast hlt
  rw [weight_eq]
  constructor <;> linarith

/-- What is told of a triangle without zeros on its diagonal. -/
structure Estimated (l : Lower ℝ n) (e : SingularEstimate ℝ n) : Prop where
  unit : Geometry.norm e.left = 1
  left : ∃ b x : Fin n → ℝ, (∀ i : Fin n, |b i| = 1 / 2 * (1 + (draw (n - i) : ℝ) / 9973)) ∧
    (∀ y, l.matrixᵀ *ᵥ y = b ↔ y = x) ∧ ∃ c : ℝ, 0 < c ∧ coords e.left = c • x
  right : l.matrix *ᵥ coords e.right = coords e.left
  sigma : 0 < e.sigma ∧ e.sigma = 1 / Geometry.norm e.right
  stretch : Geometry.norm (l.mulVec e.right) = e.sigma * Geometry.norm e.right
  last : (toEuclideanLin l.matrix).singularValues (n - 1) ≤ e.sigma

section

variable (hl : ∀ i, l.get i i ≠ 0) (hn : 0 < n)
include hl hn

theorem norm_mulVec_right : Geometry.norm (l.mulVec l.smallestSingular.right) =
    l.smallestSingular.sigma * Geometry.norm l.smallestSingular.right := by
  have hright := (norm_right_pos hl hn).ne'
  rw [norm_eq, l.coords_mulVec, matrix_mulVec_right hl hn, ← norm_eq, norm_left hl hn,
    sigma_eq hl hn, one_div_mul_cancel hright]

theorem singularValues_last_le_sigma :
    (toEuclideanLin l.matrix).singularValues (n - 1) ≤ l.smallestSingular.sigma := by
  have hright := norm_right_pos hl hn
  have hne : coords l.smallestSingular.right ≠ 0 := fun h => hright.ne' (norm_eq_zero.mpr h)
  have hstretch := norm_mulVec_right hl hn
  have hform : coords l.smallestSingular.right ⬝ᵥ
      l.transposeTimesSelf.matrix *ᵥ coords l.smallestSingular.right =
        l.smallestSingular.sigma ^ 2 *
          (coords l.smallestSingular.right ⬝ᵥ coords l.smallestSingular.right) := by
    rw [l.transposeTimesSelf_matrix, ← mulVec_mulVec, dotProduct_mulVec, vecMul_transpose,
      ← l.coords_mulVec, ← norm_mul_self, ← norm_mul_self, hstretch]
    ring
  obtain ⟨c, hc, hle⟩ := l.transposeTimesSelf.exists_spectrum_le hne hform.le
  rw [l.transposeTimesSelf_matrix] at hc
  have hsigma : 0 ≤ l.smallestSingular.sigma := by
    rw [sigma_eq hl hn]
    exact (one_div_pos.mpr hright).le
  exact singularValues_last_le hsigma hc hle

theorem estimated : l.Estimated l.smallestSingular where
  unit := norm_left hl hn
  left := by
    refine ⟨l.matrixᵀ *ᵥ coords l.largeSolution, coords l.largeSolution, fun i => ?_, fun y => ?_,
      1 / Geometry.norm l.largeSolution, one_div_pos.mpr (norm_largeSolution_pos hl hn),
      coords_left hl hn⟩
    · have hdraw : n - i = n - 1 - i + 1 := by omega
      rw [abs_transpose_mulVec_largeSolution hl, weight_eq, hdraw]
    · have hdet : IsUnit l.matrixᵀ := by
        rw [isUnit_iff_isUnit_det, det_transpose]
        exact (det_ne_zero hl).isUnit
      exact ⟨fun h => mulVec_injective_of_isUnit hdet h, fun h => h ▸ rfl⟩
  right := matrix_mulVec_right hl hn
  sigma := by
    rw [sigma_eq hl hn]
    exact ⟨one_div_pos.mpr (norm_right_pos hl hn), rfl⟩
  stretch := norm_mulVec_right hl hn
  last := singularValues_last_le_sigma hl hn

end

theorem smallestSingular_of_zero (h : n = 0 ∨ ∃ i, l.get i i = 0) :
    l.smallestSingular = ⟨0, Vector.replicate n 0, Vector.replicate n 0⟩ := by
  refine if_pos (h.imp_right fun ⟨i, hi⟩ => ?_)
  rw [Option.isSome_iff_ne_none]
  exact fun hnone => firstZero?_eq_none_iff.mp hnone i hi

end Lower

/-- In exact arithmetic the estimate belongs to a right side whose entries have the sizes of the
draws, whatever signs are chosen, and is not below the smallest singular value. -/
theorem smallestSingular_estimated (l : Lower ℝ n) :
    (0 < n → (∀ i, l.get i i ≠ 0) → l.Estimated l.smallestSingular) ∧
    (n = 0 ∨ (∃ i, l.get i i = 0) →
      l.smallestSingular = ⟨0, Vector.replicate n 0, Vector.replicate n 0⟩) ∧
    ∀ k, 3432 * draw k < UInt32.size ∧
      1 / 2 < 1 / 2 * (1 + (draw (k + 1) : ℝ) / 9973) ∧
      1 / 2 * (1 + (draw (k + 1) : ℝ) / 9973) < 1 :=
  ⟨fun hn hl => Lower.estimated hl hn, Lower.smallestSingular_of_zero,
    fun k => ⟨draw_product_lt k, Lower.weight_within k⟩⟩

noncomputable def slanted : Lower ℝ 2 := ⟨⟨(#v[1, 2, -3] : Vector ℝ 3)⟩⟩

theorem smallestSingular_estimated_slanted :
    0 < 2 ∧ (∀ i, slanted.get i i ≠ 0) ∧ slanted.Estimated slanted.smallestSingular := by
  have hl (i : Fin 2) : slanted.get i i ≠ 0 := by
    fin_cases i
    · exact (by norm_num : (1 : ℝ) ≠ 0)
    · exact (by norm_num : (-3 : ℝ) ≠ 0)
  exact ⟨by decide, hl, (smallestSingular_estimated slanted).1 (by decide) hl⟩

end LeastSquares
