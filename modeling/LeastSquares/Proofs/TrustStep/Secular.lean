import LeastSquares.Proofs.Linear.Gershgorin
import LeastSquares.Proofs.TrustStep.Newton
import Mathlib.LinearAlgebra.Matrix.BilinearForm

namespace LeastSquares

open Matrix

variable {n : Nat} {h : Symmetric ℝ n} {g s u : Vector ℝ n} {a b : ℝ}

theorem dotProduct_mulVec_mul_self_le {m : Matrix (Fin n) (Fin n) ℝ} (hsymm : m.IsSymm)
    (hm : ∀ v, 0 ≤ v ⬝ᵥ m *ᵥ v) (x y : Fin n → ℝ) :
    (x ⬝ᵥ m *ᵥ y) * (x ⬝ᵥ m *ᵥ y) ≤ (x ⬝ᵥ m *ᵥ x) * (y ⬝ᵥ m *ᵥ y) := by
  have hnonneg (v : Fin n → ℝ) : 0 ≤ toBilin' m v v := by
    rw [toBilin'_apply']
    exact hm v
  have hcomm : y ⬝ᵥ m *ᵥ x = x ⬝ᵥ m *ᵥ y := by
    rw [dotProduct_comm, ← vecMul_transpose, hsymm.eq, ← dotProduct_mulVec]
  have hschwarz := LinearMap.BilinForm.apply_mul_apply_le_of_forall_zero_le _ hnonneg x y
  simp only [toBilin'_apply'] at hschwarz
  rwa [hcomm] at hschwarz

theorem dotProduct_le_norm_mul_norm (x y : Vector ℝ n) :
    coords x ⬝ᵥ coords y ≤ Geometry.norm x * Geometry.norm y := by
  rw [norm_eq, norm_eq]
  have h := Real.sum_mul_le_sqrt_mul_sqrt Finset.univ (coords x) (coords y)
  simp only [sq] at h
  exact h

namespace Symmetric

theorem exists_mulVec_eq (hb : (h.addToDiagonal b).matrix.PosDef) (x : Vector ℝ n) :
    ∃ y : Vector ℝ n, (h.addToDiagonal b).matrix *ᵥ coords y = coords x := by
  obtain ⟨l, hl⟩ := exists_cholesky_of_posDef hb
  obtain ⟨-, y, -, hy, -⟩ := Lower.newtonStep_spec hl (-x)
  rw [coords_neg, neg_neg] at hy
  exact ⟨y, hy⟩

theorem exists_mulVec_eq_of_solve {l : Lower ℝ n} {x v : Vector ℝ n} (hl : h.cholesky = .ok l)
    (hv : l.solve x = .ok v) : ∃ y : Vector ℝ n, h.matrix *ᵥ coords y = coords x ∧
      coords y ⬝ᵥ coords x = Geometry.norm v * Geometry.norm v := by
  have hpos := cholesky_positiveDiagonal hl
  have hx := Lower.solve_spec hpos hv
  have hy := Lower.solveTranspose_spec hpos (Lower.solveTranspose_eq_ok hpos v)
  refine ⟨l.backward v, ?_, ?_⟩
  · rw [← cholesky_product hl, ← mulVec_mulVec, hy, hx]
  · rw [← hx, dotProduct_mulVec, ← mulVec_transpose, hy, norm_mul_self]

theorem exists_solves (hb : (h.addToDiagonal b).matrix.PosDef) (g : Vector ℝ n) :
    ∃ s, Solves h g b s := by
  obtain ⟨s, hs⟩ := exists_mulVec_eq hb (-g)
  rw [coords_neg] at hs
  exact ⟨s, hb, hs⟩

theorem circle_add_nonneg (hb : (h.addToDiagonal b).matrix.PosDef) (hnonneg : 0 ≤ b) :
    0 ≤ h.gershgorin.2 + b := by
  rcases n.eq_zero_or_pos with rfl | hn
  · simpa [gershgorin, greatestOf] using hnonneg
  · let i : Fin n := ⟨0, hn⟩
    have hne : (Pi.single i 1 : Fin n → ℝ) ≠ 0 := Pi.single_ne_zero_iff.mpr one_ne_zero
    have hpos := (posDef_iff _).mp hb _ hne
    have hunit : (Pi.single i 1 : Fin n → ℝ) ⬝ᵥ Pi.single i 1 = 1 := by simp
    have hcircle := h.le_gershgorin_snd_mul (Pi.single i 1)
    rw [h.dotProduct_addToDiagonal, hunit] at hpos
    rw [hunit] at hcircle
    linarith

theorem form_product_nonneg (ha : (h.addToDiagonal a).matrix.PosDef)
    (hb : (h.addToDiagonal b).matrix.PosDef) (v : Fin n → ℝ) :
    0 ≤ ((h.addToDiagonal a).matrix *ᵥ v) ⬝ᵥ ((h.addToDiagonal a).matrix *ᵥ v) +
      (b - a) * (v ⬝ᵥ (h.addToDiagonal a).matrix *ᵥ v) := by
  have hforma := form_nonneg ha v
  have hformb := form_nonneg hb v
  rcases le_total a b with hab | hba
  · exact add_nonneg (dotProduct_self_nonneg _) (mul_nonneg (sub_nonneg.mpr hab) hforma)
  · have hswap : ((h.addToDiagonal a).matrix *ᵥ v) ⬝ᵥ ((h.addToDiagonal a).matrix *ᵥ v) +
        (b - a) * (v ⬝ᵥ (h.addToDiagonal a).matrix *ᵥ v) =
        ((h.addToDiagonal b).matrix *ᵥ v) ⬝ᵥ ((h.addToDiagonal b).matrix *ᵥ v) +
        (a - b) * (v ⬝ᵥ (h.addToDiagonal b).matrix *ᵥ v) := by
      rw [h.addToDiagonal_mulVec a b]
      simp only [add_dotProduct, dotProduct_add, smul_dotProduct, dotProduct_smul, smul_eq_mul,
        dotProduct_comm ((h.addToDiagonal a).matrix *ᵥ v) v]
      ring
    rw [hswap]
    exact add_nonneg (dotProduct_self_nonneg _) (mul_nonneg (sub_nonneg.mpr hba) hformb)

end Symmetric

namespace Solves

theorem eq_add (hs : Solves h g a s) (hu : Solves h g b u) {y : Vector ℝ n}
    (hy : (h.addToDiagonal a).matrix *ᵥ coords y = coords u) :
    coords s = coords u + (b - a) • coords y := by
  have hx : Solves h g a (u + y.map (· * (b - a))) := by
    refine ⟨hs.posDef, ?_⟩
    rw [coords_add, coords_map_mul, mulVec_add, mulVec_smul, hy, ← h.addToDiagonal_mulVec a b,
      hu.equation]
  rw [hs.unique hx, coords_add, coords_map_mul]

theorem norm_pos_of_solve {l : Lower ℝ n} {v : Vector ℝ n} (hl : h.cholesky = .ok l)
    (hv : l.solve s = .ok v) (hlong : 0 < Geometry.norm v) : 0 < Geometry.norm s := by
  apply (norm_nonneg s).lt_of_ne
  intro hzero
  obtain ⟨y, -, hy⟩ := Symmetric.exists_mulVec_eq_of_solve hl hv
  rw [norm_eq_zero.mp hzero.symm, dotProduct_zero] at hy
  exact absurd hy (mul_pos hlong hlong).ne

/-- The inequality of Cauchy and Schwarz for the product of the two shifted matrices, between
the solutions for `s` and for `u`. -/
theorem schwarz (hs : Solves h g a s) (hu : Solves h g b u) {y : Vector ℝ n}
    (hy : (h.addToDiagonal a).matrix *ᵥ coords y = coords s) :
    (coords s ⬝ᵥ coords s) * (coords s ⬝ᵥ coords s) ≤
      (coords s ⬝ᵥ coords s + (b - a) * (coords y ⬝ᵥ coords s)) * (coords s ⬝ᵥ coords u) := by
  obtain ⟨z, hz⟩ := Symmetric.exists_mulVec_eq hs.posDef u
  have hsu := hs.eq_add hu hz
  have hcomm := (h.addToDiagonal a).dotProduct_matrix_comm
  have hsymm := (h.addToDiagonal a).isSymm_matrix
  have hnonneg := Symmetric.form_product_nonneg hs.posDef hu.posDef
  generalize (h.addToDiagonal a).matrix = m at hy hz hcomm hsymm hnonneg
  have hform (x w : Fin n → ℝ) : x ⬝ᵥ (m * m + (b - a) • m) *ᵥ w =
      (m *ᵥ x) ⬝ᵥ (m *ᵥ w) + (b - a) * (x ⬝ᵥ m *ᵥ w) := by
    rw [add_mulVec, smul_mulVec, dotProduct_add, dotProduct_smul, smul_eq_mul, ← mulVec_mulVec,
      hcomm, dotProduct_comm]
  have hproduct : (m * m + (b - a) • m).IsSymm := by
    rw [IsSymm, transpose_add, transpose_mul, transpose_smul, hsymm.eq]
  have hschwarz := dotProduct_mulVec_mul_self_le hproduct (fun x => by
    rw [hform]
    exact hnonneg x) (coords y) (coords z)
  have hleft (x : Fin n → ℝ) :
      coords s ⬝ᵥ x = coords u ⬝ᵥ x + (b - a) * (coords z ⬝ᵥ x) := by
    rw [hsu, add_dotProduct, smul_dotProduct, smul_eq_mul]
  have hzy : coords y ⬝ᵥ coords u = coords z ⬝ᵥ coords s := by
    rw [← hz, hcomm, hy]
  have hcross : coords s ⬝ᵥ coords u + (b - a) * (coords y ⬝ᵥ coords u) =
      coords s ⬝ᵥ coords s := by
    rw [hzy, hleft (coords s), dotProduct_comm (coords u)]
  rw [hform, hform, hform, hy, hz, hcross, ← hleft (coords u)] at hschwarz
  exact hschwarz

theorem tangent_le (hs : Solves h g a s) (hu : Solves h g b u) {l : Lower ℝ n} {v : Vector ℝ n}
    (hl : (h.addToDiagonal a).cholesky = .ok l) (hv : l.solve s = .ok v) :
    Geometry.norm s * Geometry.norm s * (Geometry.norm s - Geometry.norm u) ≤
      (b - a) * (Geometry.norm v * Geometry.norm v) * Geometry.norm u := by
  obtain ⟨y, hy, hyv⟩ := Symmetric.exists_mulVec_eq_of_solve hl hv
  have hschwarz := hs.schwarz hu hy
  have hnonneg := Symmetric.form_product_nonneg hs.posDef hu.posDef (coords y)
  rw [hy, hyv, ← norm_mul_self] at hnonneg
  rw [hyv, ← norm_mul_self] at hschwarz
  have hsu := mul_le_mul_of_nonneg_left (dotProduct_le_norm_mul_norm s u) hnonneg
  rcases (norm_nonneg s).eq_or_lt with hzero | hpos
  · have hvzero : Geometry.norm v * Geometry.norm v = 0 := by
      rw [← hyv, norm_eq_zero.mp hzero.symm, dotProduct_zero]
    rw [← hzero, hvzero]
    simp
  · apply le_of_mul_le_mul_left _ hpos
    linarith

theorem lt_of_norm_lt (hs : Solves h g a s) (hu : Solves h g b u)
    (hlt : Geometry.norm u < Geometry.norm s) : a < b := by
  obtain ⟨l, hl⟩ := Symmetric.exists_cholesky_of_posDef hs.posDef
  have htangent := hs.tangent_le hu hl
    (Lower.solve_eq_ok (Symmetric.cholesky_positiveDiagonal hl) s)
  have hlong : 0 < Geometry.norm s := (norm_nonneg u).trans_lt hlt
  have hleft := mul_pos (mul_pos hlong hlong) (sub_pos.mpr hlt)
  by_contra hba
  have hright : (b - a) * (Geometry.norm (l.forward s) * Geometry.norm (l.forward s)) *
      Geometry.norm u ≤ 0 :=
    mul_nonpos_of_nonpos_of_nonneg
      (mul_nonpos_of_nonpos_of_nonneg (sub_nonpos.mpr (not_lt.mp hba)) (mul_self_nonneg _))
      (norm_nonneg u)
  linarith

/-- A step of Newton's method on the reciprocal of the length stops short of every shift whose
step is within the radius. -/
theorem newton_le (hs : Solves h g a s) (hu : Solves h g b u) {l : Lower ℝ n} {v : Vector ℝ n}
    (hl : (h.addToDiagonal a).cholesky = .ok l) (hv : l.solve s = .ok v)
    (hlong : 0 < Geometry.norm v) {radius : ℝ} (hr : 0 < radius)
    (hshort : Geometry.norm u ≤ radius) :
    a + (Geometry.norm s - radius) / Geometry.norm v * (Geometry.norm s / Geometry.norm v) *
      (Geometry.norm s / radius) ≤ b := by
  have htangent := hs.tangent_le hu hl hv
  have hmove : (Geometry.norm s - radius) / Geometry.norm v *
      (Geometry.norm s / Geometry.norm v) * (Geometry.norm s / radius) =
      Geometry.norm s * Geometry.norm s * (Geometry.norm s - radius) /
        (Geometry.norm v * Geometry.norm v * radius) := by
    field_simp
  rw [hmove, ← le_sub_iff_add_le', div_le_iff₀ (mul_pos (mul_pos hlong hlong) hr)]
  have hspos := norm_pos_of_solve hl hv hlong
  have hcube := mul_pos (mul_pos hspos hspos) hspos
  have hupos : 0 < Geometry.norm u := by
    apply (norm_nonneg u).lt_of_ne
    intro hzero
    rw [← hzero, sub_zero, mul_zero] at htangent
    exact absurd hcube (not_lt.mpr htangent)
  apply le_of_mul_le_mul_right _ hupos
  have hscaled := mul_le_mul_of_nonneg_right htangent hr.le
  have hless := mul_nonneg hcube.le (sub_nonneg.mpr hshort)
  linarith

theorem slope_le (hs : Solves h g 0 s) (hu : Solves h g b u) {l : Lower ℝ n} {v : Vector ℝ n}
    (hl : (h.addToDiagonal 0).cholesky = .ok l) (hv : l.solve s = .ok v) (hb : 0 ≤ b) :
    (Geometry.norm s - Geometry.norm u) *
      (Geometry.norm s / (Geometry.norm v * Geometry.norm v)) ≤ b := by
  have htangent := hs.tangent_le hu hl hv
  rw [sub_zero] at htangent
  have hmodel : 0 ≤ b * (Geometry.norm v * Geometry.norm v) := mul_nonneg hb (mul_self_nonneg _)
  rw [← mul_div_assoc]
  apply div_le_of_le_mul₀ (mul_self_nonneg _) hb
  rcases le_or_gt (Geometry.norm s) (Geometry.norm u) with hle | hlt
  · exact (mul_nonpos_of_nonpos_of_nonneg (sub_nonpos.mpr hle) (norm_nonneg s)).trans hmodel
  · apply le_of_mul_le_mul_right _ ((norm_nonneg u).trans_lt hlt)
    have hless := mul_le_mul_of_nonneg_left hlt.le hmodel
    linarith

theorem form_le (hs : Solves h g b s) :
    coords s ⬝ᵥ (h.addToDiagonal b).matrix *ᵥ coords s ≤ Geometry.norm s * Geometry.norm g := by
  have hle := dotProduct_le_norm_mul_norm s (-g)
  rw [norm_eq (-g), coords_neg, neg_dotProduct_neg, ← norm_eq] at hle
  rw [hs.equation]
  exact hle

theorem circle_mul_norm_le (hs : Solves h g b s) :
    (h.gershgorin.1 + b) * Geometry.norm s ≤ Geometry.norm g := by
  have hcircle := h.gershgorin_fst_mul_le (coords s)
  have hform := hs.form_le
  rw [h.dotProduct_addToDiagonal, ← norm_mul_self] at hform
  rw [← norm_mul_self] at hcircle
  rcases (norm_nonneg s).eq_or_lt with hzero | hpos
  · rw [← hzero, mul_zero]
    exact norm_nonneg g
  · apply le_of_mul_le_mul_left _ hpos
    linarith

theorem norm_le_circle_mul (hs : Solves h g b s) :
    Geometry.norm g ≤ (h.gershgorin.2 + b) * Geometry.norm s := by
  have hnonneg := Symmetric.form_nonneg hs.posDef
  have hschwarz := dotProduct_mulVec_mul_self_le (h.addToDiagonal b).isSymm_matrix hnonneg
    (coords s) (coords g)
  have hcircle := h.le_gershgorin_snd_mul (coords g)
  have hupper := hs.form_le
  have hlower := hnonneg (coords s)
  have hg : coords s ⬝ᵥ (h.addToDiagonal b).matrix *ᵥ coords g =
      -(Geometry.norm g * Geometry.norm g) := by
    rw [(h.addToDiagonal b).dotProduct_matrix_comm, hs.equation, dotProduct_neg, norm_mul_self]
  rw [hg, h.dotProduct_addToDiagonal b (coords g), ← norm_mul_self] at hschwarz
  rw [← norm_mul_self] at hcircle
  generalize hq : coords s ⬝ᵥ (h.addToDiagonal b).matrix *ᵥ coords s = q at hschwarz hupper hlower
  rcases (norm_nonneg g).eq_or_lt with hzero | hpos
  · have hidle : coords s = 0 := by
      by_contra hne
      have hcurved := (Symmetric.posDef_iff _).mp hs.posDef _ hne
      rw [← hzero, mul_zero] at hupper
      exact absurd (hq ▸ hcurved) (not_lt.mpr hupper)
    rw [← hzero, norm_eq_zero.mpr hidle, mul_zero]
  · have hsquare := mul_pos hpos hpos
    have hbound : Geometry.norm g * Geometry.norm g ≤ q * (h.gershgorin.2 + b) := by
      apply le_of_mul_le_mul_right _ hsquare
      have hscaled := mul_le_mul_of_nonneg_left hcircle hlower
      linarith
    have hend : 0 ≤ h.gershgorin.2 + b := by
      by_contra hneg
      have hle := mul_nonpos_of_nonneg_of_nonpos hlower (not_le.mp hneg).le
      linarith
    apply le_of_mul_le_mul_right _ hpos
    have hscaled := mul_le_mul_of_nonneg_right hupper hend
    linarith

theorem ratio_sub_circle_le (hs : Solves h g b s) (hb : 0 ≤ b) {radius : ℝ} (hr : 0 < radius)
    (hshort : Geometry.norm s ≤ radius) : Geometry.norm g / radius - h.gershgorin.2 ≤ b := by
  have hend := Symmetric.circle_add_nonneg hs.posDef hb
  have hlong := mul_le_mul_of_nonneg_left hshort hend
  have hratio : Geometry.norm g / radius ≤ h.gershgorin.2 + b := by
    rw [div_le_iff₀ hr]
    exact hs.norm_le_circle_mul.trans hlong
  linarith

end Solves

theorem le_ratio_sub_circle {radius : ℝ} (hr : 0 < radius)
    (hlong : ∀ s, Solves h g b s → radius ≤ Geometry.norm s) :
    b ≤ Geometry.norm g / radius - h.gershgorin.1 := by
  have hratio : 0 ≤ Geometry.norm g / radius := div_nonneg (norm_nonneg g) hr.le
  rcases le_or_gt b (-h.gershgorin.1) with hle | hlt
  · linarith
  · obtain ⟨s, hs⟩ := Symmetric.exists_solves (h.posDef_addToDiagonal hlt) g
    have hend : 0 ≤ h.gershgorin.1 + b := by linarith
    have hscaled := mul_le_mul_of_nonneg_left (hlong s hs) hend
    have hle : h.gershgorin.1 + b ≤ Geometry.norm g / radius := by
      rw [le_div_iff₀ hr]
      exact hscaled.trans hs.circle_mul_norm_le
    linarith

end LeastSquares
