import LeastSquares.Proofs.TrustStep.Direct
import LeastSquares.Proofs.TrustStep.Secular
import Mathlib.Topology.MetricSpace.ProperSpace.Real
import Mathlib.Topology.Instances.Matrix

namespace LeastSquares

open Matrix

variable {n : Nat} {h : Symmetric ℝ n} {g s u : Vector ℝ n} {a b floor radius : ℝ}

theorem isCompact_unit (n : Nat) : IsCompact {v : Fin n → ℝ | v ⬝ᵥ v = 1} := by
  have hclosed : IsClosed {v : Fin n → ℝ | v ⬝ᵥ v = 1} :=
    isClosed_eq (continuous_id.dotProduct continuous_id) continuous_const
  apply (isCompact_closedBall (0 : Fin n → ℝ) 1).of_isClosed_subset hclosed
  intro v hv
  rw [Metric.mem_closedBall, dist_pi_le_iff zero_le_one]
  intro i
  rw [Pi.zero_apply, Real.dist_eq, sub_zero, ← sq_le_one_iff_abs_le_one, sq,
    ← (show v ⬝ᵥ v = 1 from hv)]
  exact Finset.single_le_sum (f := fun i => v i * v i) (fun j _ => mul_self_nonneg (v j))
    (Finset.mem_univ i)

theorem exists_unit {v : Fin n → ℝ} (hv : v ≠ 0) :
    ∃ u : Fin n → ℝ, u ⬝ᵥ u = 1 ∧ v = √(v ⬝ᵥ v) • u := by
  have hroot : √(v ⬝ᵥ v) ≠ 0 := (Real.sqrt_pos.mpr (dotProduct_self_pos hv)).ne'
  refine ⟨(√(v ⬝ᵥ v))⁻¹ • v, ?_, ?_⟩
  · have hsquare := Real.mul_self_sqrt (dotProduct_self_nonneg v)
    rw [smul_dotProduct, dotProduct_smul, smul_eq_mul, smul_eq_mul]
    nth_rewrite 3 [← hsquare]
    field_simp
  · rw [smul_smul, mul_inv_cancel₀ hroot, one_smul]

theorem Symmetric.exists_convex (hdef : h.matrix.PosDef) :
    ∃ a, 0 < a ∧ ∀ v, a * (v ⬝ᵥ v) ≤ v ⬝ᵥ h.matrix *ᵥ v := by
  have hform : Continuous fun v : Fin n → ℝ => v ⬝ᵥ h.matrix *ᵥ v :=
    continuous_id.dotProduct (continuous_const.matrix_mulVec continuous_id)
  by_cases hempty : {v : Fin n → ℝ | v ⬝ᵥ v = 1}.Nonempty
  · obtain ⟨e, he, hleast⟩ := (isCompact_unit n).exists_isMinOn hempty hform.continuousOn
    have hne : e ≠ 0 := by
      intro hzero
      rw [Set.mem_ofPred_eq, hzero, dotProduct_zero] at he
      exact zero_ne_one he
    refine ⟨e ⬝ᵥ h.matrix *ᵥ e, (posDef_iff _).mp hdef e hne, fun v => ?_⟩
    by_cases hv : v = 0
    · simp [hv]
    · obtain ⟨u, hu, hvu⟩ := exists_unit hv
      have hle : e ⬝ᵥ h.matrix *ᵥ e ≤ u ⬝ᵥ h.matrix *ᵥ u := hleast hu
      have hscaled : v ⬝ᵥ h.matrix *ᵥ v = (v ⬝ᵥ v) * (u ⬝ᵥ h.matrix *ᵥ u) := by
        conv_lhs => rw [hvu]
        rw [mulVec_smul, smul_dotProduct, dotProduct_smul, smul_eq_mul, smul_eq_mul, ← mul_assoc,
          Real.mul_self_sqrt (dotProduct_self_nonneg v)]
      rw [hscaled, mul_comm]
      exact mul_le_mul_of_nonneg_left hle (dotProduct_self_nonneg v)
  · refine ⟨1, one_pos, fun v => ?_⟩
    by_cases hv : v = 0
    · simp [hv]
    · obtain ⟨u, hu, -⟩ := exists_unit hv
      exact absurd ⟨u, hu⟩ hempty

theorem norm_le_norm_add (s u : Vector ℝ n) :
    Geometry.norm u ≤ Geometry.norm s + Geometry.norm (u - s) := by
  have hsplit : coords u ⬝ᵥ coords u = coords u ⬝ᵥ coords s + coords u ⬝ᵥ coords (u - s) := by
    rw [← dotProduct_add, coords_sub, add_sub_cancel]
  have hfirst := dotProduct_le_norm_mul_norm u s
  have hsecond := dotProduct_le_norm_mul_norm u (u - s)
  rw [← norm_mul_self] at hsplit
  rcases (norm_nonneg u).eq_or_lt with hzero | hpos
  · rw [← hzero]
    exact add_nonneg (norm_nonneg s) (norm_nonneg _)
  · apply le_of_mul_le_mul_left _ hpos
    linarith

namespace Solves

theorem norm_pos (hs : Solves h g a s) (hg : coords g ≠ 0) : 0 < Geometry.norm s := by
  apply (norm_nonneg s).lt_of_ne'
  intro hzero
  apply hg
  have hequation := hs.equation
  rw [norm_eq_zero.mp hzero, mulVec_zero] at hequation
  exact neg_eq_zero.mp hequation.symm

theorem norm_solve_pos (hs : Solves h g a s) (hg : coords g ≠ 0) {b : Symmetric ℝ n}
    {l : Lower ℝ n} {v : Vector ℝ n} (hl : b.cholesky = .ok l) (hv : l.solve s = .ok v) :
    0 < Geometry.norm v := by
  apply (norm_nonneg v).lt_of_ne'
  intro hzero
  have hsolve := Lower.solve_spec (Symmetric.cholesky_positiveDiagonal hl) hv
  rw [norm_eq_zero.mp hzero, mulVec_zero] at hsolve
  exact (norm_eq_zero.mpr hsolve.symm).not_gt (hs.norm_pos hg)

theorem norm_lt_of_lt (hs : Solves h g a s) (hu : Solves h g b u) (hg : coords g ≠ 0)
    (hab : a < b) : Geometry.norm u < Geometry.norm s := by
  obtain ⟨l, hl⟩ := Symmetric.exists_cholesky_of_posDef hu.posDef
  have hv := Lower.solve_eq_ok (Symmetric.cholesky_positiveDiagonal hl) u
  have htangent := hu.tangent_le hs hl hv
  have hlong := hu.norm_solve_pos hg hl hv
  have hright := mul_pos (mul_pos (sub_pos.mpr hab) (mul_pos hlong hlong)) (hs.norm_pos hg)
  by_contra hle
  have hleft := mul_nonneg (mul_self_nonneg (Geometry.norm u)) (sub_nonneg.mpr (not_lt.mp hle))
  linarith

theorem eq_of_norm_eq (hs : Solves h g a s) (hu : Solves h g b u) (hg : coords g ≠ 0)
    (hnorm : Geometry.norm s = Geometry.norm u) : a = b := by
  apply le_antisymm
  · by_contra hlt
    exact (hu.norm_lt_of_lt hs hg (not_le.mp hlt)).ne hnorm
  · by_contra hlt
    exact (hs.norm_lt_of_lt hu hg (not_le.mp hlt)).ne' hnorm

theorem moved_le {c : ℝ} (hs : Solves h g a s) (hu : Solves h g b u) (hba : b ≤ a)
    (hcurved : ∀ v, c * (v ⬝ᵥ v) ≤ v ⬝ᵥ (h.addToDiagonal b).matrix *ᵥ v) :
    c * Geometry.norm (u - s) ≤ (a - b) * Geometry.norm s := by
  have hmove : (h.addToDiagonal b).matrix *ᵥ coords (u - s) = (a - b) • coords s := by
    rw [coords_sub, mulVec_sub, hu.equation, h.addToDiagonal_mulVec a, hs.equation]
    module
  have hform := hcurved (coords (u - s))
  rw [hmove, dotProduct_smul, smul_eq_mul, ← norm_mul_self] at hform
  have hschwarz := mul_le_mul_of_nonneg_left (dotProduct_le_norm_mul_norm (u - s) s)
    (sub_nonneg.mpr hba)
  rcases (norm_nonneg (u - s)).eq_or_lt with hzero | hpos
  · rw [← hzero, mul_zero]
    exact mul_nonneg (sub_nonneg.mpr hba) (norm_nonneg s)
  · apply le_of_mul_le_mul_right _ hpos
    linarith

theorem exists_less (hs : Solves h g a s) (hshort : Geometry.norm s < radius) (ha : floor < a) :
    ∃ b u, floor ≤ b ∧ b < a ∧ Solves h g b u ∧ Geometry.norm u ≤ radius := by
  obtain ⟨c, hc, hconvex⟩ := Symmetric.exists_convex hs.posDef
  have hr : 0 < radius := (norm_nonneg s).trans_lt hshort
  have hgap : 0 < radius - Geometry.norm s := sub_pos.mpr hshort
  -- Little enough to stay above the floor, to leave some curvature, and not to pass the radius.
  obtain ⟨e, he, hefloor, hesmall⟩ : ∃ e, 0 < e ∧ e ≤ a - floor ∧
      e * (2 * radius) ≤ c * (radius - Geometry.norm s) := by
    refine ⟨min (a - floor) (c * (radius - Geometry.norm s) / (2 * radius)), ?_, min_le_left _ _,
      ?_⟩
    · exact lt_min (sub_pos.mpr ha) (div_pos (mul_pos hc hgap) (by linarith))
    · rw [← le_div_iff₀ (by linarith)]
      exact min_le_right _ _
  have hec : e < c := by
    have hle : c * (radius - Geometry.norm s) ≤ c * radius :=
      mul_le_mul_of_nonneg_left (by linarith [norm_nonneg s]) hc.le
    have hlt : e * radius < c * radius := by linarith [mul_pos he hr]
    exact lt_of_mul_lt_mul_right hlt hr.le
  have hcurved (v : Fin n → ℝ) :
      (c - e) * (v ⬝ᵥ v) ≤ v ⬝ᵥ (h.addToDiagonal (a - e)).matrix *ᵥ v := by
    rw [h.form_addToDiagonal a]
    linarith [hconvex v]
  obtain ⟨u, hu⟩ := Symmetric.exists_solves
    (Symmetric.posDef_of_convex (sub_pos.mpr hec) hcurved) g
  have hmoved := hs.moved_le hu (by linarith) hcurved
  have hnear : Geometry.norm (u - s) ≤ radius - Geometry.norm s := by
    apply le_of_mul_le_mul_left _ (sub_pos.mpr hec)
    linarith [mul_pos he hgap, mul_nonneg he.le (norm_nonneg s)]
  exact ⟨a - e, u, by linarith, by linarith, hu, by linarith [norm_le_norm_add s u]⟩

end Solves

end LeastSquares
