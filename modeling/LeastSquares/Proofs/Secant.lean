import LeastSquares.Proofs.Packed.Operations
import LeastSquares.Secant
import Mathlib.LinearAlgebra.Span.Basic

namespace LeastSquares

open Matrix

variable {p : Nat}

section Size

variable (s : Symmetric ℝ p) (step yStar : Vector ℝ p)

theorem secantSize_eq : secantSize s step yStar =
    if coords step ⬝ᵥ s.matrix *ᵥ coords step = 0 then 1
    else min (|coords step ⬝ᵥ coords yStar| / |coords step ⬝ᵥ s.matrix *ᵥ coords step|) 1 := by
  unfold secantSize
  simp only [dot_eq, s.coords_mulVec, beq_iff, abs_eq]

theorem isGreatest_secantSize : IsGreatest
    {t | 0 ≤ t ∧ t ≤ 1 ∧
      |coords step ⬝ᵥ (t • s.matrix) *ᵥ coords step| ≤ |coords step ⬝ᵥ coords yStar|}
    (secantSize s step yStar) := by
  have hpart {t : ℝ} (ht : 0 ≤ t) : |coords step ⬝ᵥ (t • s.matrix) *ᵥ coords step| =
      t * |coords step ⬝ᵥ s.matrix *ᵥ coords step| := by
    rw [smul_mulVec, dotProduct_smul, smul_eq_mul, abs_mul, abs_of_nonneg ht]
  rw [secantSize_eq]
  by_cases hzero : coords step ⬝ᵥ s.matrix *ᵥ coords step = 0
  · rw [if_pos hzero]
    refine ⟨⟨zero_le_one, le_rfl, ?_⟩, fun t ht => ht.2.1⟩
    rw [hpart zero_le_one, hzero, abs_zero, mul_zero]
    exact abs_nonneg _
  · rw [if_neg hzero]
    have hpos := abs_pos.mpr hzero
    have hnonneg := le_min (div_nonneg (abs_nonneg (coords step ⬝ᵥ coords yStar)) hpos.le)
      zero_le_one
    refine ⟨⟨hnonneg, min_le_right _ _, ?_⟩, ?_⟩
    · rw [hpart hnonneg]
      exact (le_div_iff₀ hpos).mp (min_le_left _ _)
    · rintro t ⟨ht, hone, hle⟩
      rw [hpart ht] at hle
      exact le_min ((le_div_iff₀ hpos).mpr hle) hone

theorem matrix_sized :
    (if secantSize s step yStar < 1 then s.scale (secantSize s step yStar) else s).matrix =
      secantSize s step yStar • s.matrix := by
  split
  · exact s.matrix_scale _
  · next hone =>
    rw [le_antisymm (isGreatest_secantSize s step yStar).1.2.1 (not_lt.mp hone), one_smul]

end Size

section Change

variable (step y w v : Fin p → ℝ)

/-- The change of rank two that makes up for the difference `w`. -/
noncomputable def secantChange : Matrix (Fin p) (Fin p) ℝ :=
  (1 / (step ⬝ᵥ y)) • (vecMulVec w y + vecMulVec y w) +
    (-(1 / 2) * (step ⬝ᵥ w) / (step ⬝ᵥ y * (step ⬝ᵥ y))) • (vecMulVec y y + vecMulVec y y)

theorem secantChange_mulVec : secantChange step y w *ᵥ v = ((y ⬝ᵥ v) / (step ⬝ᵥ y)) • w +
    ((w ⬝ᵥ v) / (step ⬝ᵥ y) - (step ⬝ᵥ w) * (y ⬝ᵥ v) / (step ⬝ᵥ y * (step ⬝ᵥ y))) • y := by
  simp only [secantChange, add_mulVec, smul_mulVec, vecMulVec_mulVec, op_smul_eq_smul]
  module

variable {step y v}

theorem secantChange_mulVec_step (h : step ⬝ᵥ y ≠ 0) : secantChange step y w *ᵥ step = w := by
  rw [secantChange_mulVec, dotProduct_comm y, dotProduct_comm w, div_self h,
    mul_div_mul_right _ _ h, sub_self, one_smul, zero_smul, add_zero]

theorem secantChange_mulVec_of_orthogonal (hv : y ⬝ᵥ v = 0) :
    secantChange step y w *ᵥ v = ((w ⬝ᵥ v) / (step ⬝ᵥ y)) • y := by
  rw [secantChange_mulVec, hv, zero_div, zero_smul, zero_add, mul_zero, zero_div, sub_zero]

end Change

/-- What an update makes of the matrix `s`, and when it leaves it at sizing it. -/
structure SecantUpdate.Follows (u : SecantUpdate ℝ p) (s : Symmetric ℝ p)
    (step y yStar : Vector ℝ p) (cosineMin : ℝ) : Prop where
  greatest : IsGreatest
    {t | 0 ≤ t ∧ t ≤ 1 ∧
      |coords step ⬝ᵥ (t • s.matrix) *ᵥ coords step| ≤ |coords step ⬝ᵥ coords yStar|} u.tau
  flat : coords step ⬝ᵥ s.matrix *ᵥ coords step = 0 → u.tau = 1
  symmetric : u.matrix.matrix.IsSymm
  skips : u.updated = false ↔
    |coords step ⬝ᵥ coords y| ≤ cosineMin * Geometry.norm step * Geometry.norm y
  skipped : u.updated = false → u.matrix.matrix = u.tau • s.matrix
  regular : u.updated = true → coords step ⬝ᵥ coords y ≠ 0
  secant : u.updated = true → u.matrix.matrix *ᵥ coords step = coords yStar
  across : u.updated = true → ∀ v, coords y ⬝ᵥ v = 0 →
    (u.matrix.matrix - u.tau • s.matrix) *ᵥ v ∈ Submodule.span ℝ {coords y}

section Update

variable (s : Symmetric ℝ p) (step y yStar : Vector ℝ p) (cosineMin : ℝ)

theorem tau_secantUpdate :
    (secantUpdate s step y yStar cosineMin).tau = secantSize s step yStar := by
  unfold secantUpdate
  dsimp only
  split <;> rfl

theorem secantUpdate_skipped
    (h : |coords step ⬝ᵥ coords y| ≤ cosineMin * Geometry.norm step * Geometry.norm y) :
    (secantUpdate s step y yStar cosineMin).updated = false ∧
      (secantUpdate s step y yStar cosineMin).matrix.matrix =
        secantSize s step yStar • s.matrix := by
  unfold secantUpdate
  dsimp only
  rw [dot_eq, abs_eq, if_pos h]
  exact ⟨rfl, matrix_sized s step yStar⟩

theorem secantUpdate_updated
    (h : ¬|coords step ⬝ᵥ coords y| ≤ cosineMin * Geometry.norm step * Geometry.norm y) :
    (secantUpdate s step y yStar cosineMin).updated = true ∧
      (secantUpdate s step y yStar cosineMin).matrix.matrix =
        secantSize s step yStar • s.matrix + secantChange (coords step) (coords y)
          (coords yStar - (secantSize s step yStar • s.matrix) *ᵥ coords step) := by
  unfold secantUpdate
  dsimp only
  rw [dot_eq step y, abs_eq, if_neg h]
  refine ⟨rfl, ?_⟩
  rw [Symmetric.matrix_rankTwo, Symmetric.matrix_rankTwo, matrix_sized, dot_eq, coords_sub,
    coords_map_mul, s.coords_mulVec, ← smul_mulVec, add_assoc]
  rfl

end Update

/-- In exact arithmetic the update of any symmetric matrix sizes it as little as the curvature along
the step allows, and then makes it map the step to `yStar` unless the step is next to orthogonal to
the change of the gradient. -/
theorem secantUpdate_follows (s : Symmetric ℝ p) (step y yStar : Vector ℝ p) {cosineMin : ℝ}
    (hcosine : 0 ≤ cosineMin) :
    (secantUpdate s step y yStar cosineMin).Follows s step y yStar cosineMin := by
  have hgreatest := isGreatest_secantSize s step yStar
  have hflat (hzero : coords step ⬝ᵥ s.matrix *ᵥ coords step = 0) :
      secantSize s step yStar = 1 := by
    rw [secantSize_eq, if_pos hzero]
  rw [← tau_secantUpdate s step y yStar cosineMin] at hgreatest hflat
  have hsymm := (secantUpdate s step y yStar cosineMin).matrix.isSymm_matrix
  by_cases hsmall : |coords step ⬝ᵥ coords y| ≤ cosineMin * Geometry.norm step * Geometry.norm y
  · obtain ⟨hskipped, hmatrix⟩ := secantUpdate_skipped s step y yStar cosineMin hsmall
    rw [← tau_secantUpdate s step y yStar cosineMin] at hmatrix
    have hnot {P : Prop} (h : (secantUpdate s step y yStar cosineMin).updated = true) : P := by
      rw [hskipped] at h
      cases h
    exact ⟨hgreatest, hflat, hsymm, iff_of_true hskipped hsmall, fun _ => hmatrix, hnot, hnot, hnot⟩
  · obtain ⟨hupdated, hmatrix⟩ := secantUpdate_updated s step y yStar cosineMin hsmall
    rw [← tau_secantUpdate s step y yStar cosineMin] at hmatrix
    have hnot : (secantUpdate s step y yStar cosineMin).updated ≠ false := by
      rw [hupdated]
      decide
    have hregular : coords step ⬝ᵥ coords y ≠ 0 := by
      have hbound := mul_nonneg (mul_nonneg hcosine (norm_nonneg step)) (norm_nonneg y)
      exact abs_pos.mp (hbound.trans_lt (not_le.mp hsmall))
    refine ⟨hgreatest, hflat, hsymm, iff_of_false hnot hsmall, fun h => absurd h hnot,
      fun _ => hregular, fun _ => ?secant, fun _ v hv => ?across⟩
    case secant =>
      rw [hmatrix, add_mulVec, secantChange_mulVec_step _ hregular, add_sub_cancel]
    case across =>
      rw [hmatrix, add_sub_cancel_left, secantChange_mulVec_of_orthogonal _ hv]
      exact Submodule.smul_mem _ _ (Submodule.mem_span_singleton_self _)

/-- Along the diagonal the curvature of the saddle is three times what it should be. -/
theorem secantUpdate_follows_saddle : (0 : ℝ) ≤ 1 / 1000000 ∧
    (secantUpdate ⟨⟨#v[1, 2, 1]⟩⟩ #v[1, 1] #v[1, 1 / 2] #v[1, 1] (1 / 1000000 : ℝ)).Follows
      ⟨⟨#v[1, 2, 1]⟩⟩ #v[1, 1] #v[1, 1 / 2] #v[1, 1] (1 / 1000000) :=
  ⟨by norm_num, secantUpdate_follows ⟨⟨#v[1, 2, 1]⟩⟩ #v[1, 1] #v[1, 1 / 2] #v[1, 1] (by norm_num)⟩

end LeastSquares
