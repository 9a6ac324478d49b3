import LeastSquares.Proofs.Linear.Definite
import LeastSquares.Proofs.Packed.Storage
import Mathlib.Tactic.Module

namespace LeastSquares

open Matrix

variable {n : Nat} {h : Symmetric ℝ n} {e : NotPositiveDefinite ℝ n} {a b : ℝ}

theorem NotPositiveDefinite.rayleigh_eq (he : Cholesky.Failed h e) :
    e.rayleigh = (coords e.direction ⬝ᵥ h.matrix *ᵥ coords e.direction) /
      (coords e.direction ⬝ᵥ coords e.direction) := by
  rw [quadraticForm_direction he, ← norm_mul_self]
  rfl

theorem rayleigh_nonpos (he : h.cholesky = .error e) : e.rayleigh ≤ 0 :=
  div_nonpos_of_nonpos_of_nonneg ((Cholesky.rows_spec h).2 e he).pivot_nonpos (mul_self_nonneg _)

namespace Symmetric

theorem matrix_addToDiagonal_zero (h : Symmetric ℝ n) : (h.addToDiagonal 0).matrix = h.matrix := by
  rw [matrix_addToDiagonal, zero_smul, add_zero]

theorem addToDiagonal_zero (h : Symmetric ℝ n) : h.addToDiagonal 0 = h :=
  matrix_injective h.matrix_addToDiagonal_zero

theorem addToDiagonal_mulVec (h : Symmetric ℝ n) (a b : ℝ) (v : Fin n → ℝ) :
    (h.addToDiagonal b).matrix *ᵥ v = (h.addToDiagonal a).matrix *ᵥ v + (b - a) • v := by
  simp only [matrix_addToDiagonal, add_mulVec, smul_mulVec, one_mulVec]
  module

theorem form_addToDiagonal (h : Symmetric ℝ n) (a b : ℝ) (v : Fin n → ℝ) :
    v ⬝ᵥ (h.addToDiagonal b).matrix *ᵥ v =
      v ⬝ᵥ (h.addToDiagonal a).matrix *ᵥ v + (b - a) * (v ⬝ᵥ v) := by
  rw [h.addToDiagonal_mulVec a b, dotProduct_add, dotProduct_smul, smul_eq_mul]

theorem dotProduct_addToDiagonal (h : Symmetric ℝ n) (a : ℝ) (v : Fin n → ℝ) :
    v ⬝ᵥ (h.addToDiagonal a).matrix *ᵥ v = v ⬝ᵥ h.matrix *ᵥ v + a * (v ⬝ᵥ v) := by
  rw [h.form_addToDiagonal 0, matrix_addToDiagonal_zero, sub_zero]

theorem form_nonneg (hb : (h.addToDiagonal b).matrix.PosDef) (v : Fin n → ℝ) :
    0 ≤ v ⬝ᵥ (h.addToDiagonal b).matrix *ᵥ v := by
  simpa using hb.posSemidef.dotProduct_mulVec_nonneg v

theorem posDef_mono (ha : (h.addToDiagonal a).matrix.PosDef) (hab : a ≤ b) :
    (h.addToDiagonal b).matrix.PosDef := by
  rw [posDef_iff] at ha ⊢
  intro v hv
  have hmore := mul_nonneg (sub_nonneg.mpr hab) (dotProduct_self_nonneg v)
  rw [h.form_addToDiagonal a b]
  linarith [ha v hv]

theorem sub_curvature_lt (hb : (h.addToDiagonal b).matrix.PosDef) {v : Fin n → ℝ} (hv : v ≠ 0)
    (a : ℝ) : a - (v ⬝ᵥ (h.addToDiagonal a).matrix *ᵥ v) / (v ⬝ᵥ v) < b := by
  have hsquare := dotProduct_self_pos hv
  have hpos := (posDef_iff _).mp hb v hv
  rw [h.form_addToDiagonal a b] at hpos
  rw [sub_lt_comm, lt_div_iff₀ hsquare]
  linarith

theorem sub_rayleigh_lt (hb : (h.addToDiagonal b).matrix.PosDef)
    (he : (h.addToDiagonal a).cholesky = .error e) : a - e.rayleigh < b := by
  have hfailed := (Cholesky.rows_spec _).2 e he
  rw [NotPositiveDefinite.rayleigh_eq hfailed]
  exact sub_curvature_lt hb (NotPositiveDefinite.direction_ne_zero hfailed) a

end Symmetric

end LeastSquares
