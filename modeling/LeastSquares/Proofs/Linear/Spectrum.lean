import LeastSquares.Proofs.Linear.Definite
import LeastSquares.Proofs.Linear.Gershgorin
import Mathlib.Analysis.Matrix.Spectrum
import Mathlib.LinearAlgebra.Matrix.Charpoly.Eigs

namespace LeastSquares

open Matrix

variable {n : Nat}

namespace Symmetric

variable (a : Symmetric ℝ n)

theorem exists_form_eq {m : ℝ} (hm : m ∈ spectrum ℝ a.matrix) :
    ∃ v, v ≠ 0 ∧ v ⬝ᵥ a.matrix *ᵥ v = m * (v ⬝ᵥ v) := by
  rw [← spectrum_toLin', ← Module.End.hasEigenvalue_iff_mem_spectrum] at hm
  obtain ⟨v, hv⟩ := hm.exists_hasEigenvector
  have hmul : a.matrix *ᵥ v = m • v := hv.apply_eq_smul
  refine ⟨v, hv.2, ?_⟩
  rw [hmul, dotProduct_smul, smul_eq_mul]

theorem mem_Icc_of_form {low high m : ℝ} (hm : m ∈ spectrum ℝ a.matrix)
    (hlow : ∀ v, low * (v ⬝ᵥ v) ≤ v ⬝ᵥ a.matrix *ᵥ v)
    (hhigh : ∀ v, v ⬝ᵥ a.matrix *ᵥ v ≤ high * (v ⬝ᵥ v)) : m ∈ Set.Icc low high := by
  obtain ⟨v, hv, hform⟩ := a.exists_form_eq hm
  have hpos := dotProduct_self_pos hv
  constructor
  · apply le_of_mul_le_mul_right _ hpos
    rw [← hform]
    exact hlow v
  · apply le_of_mul_le_mul_right _ hpos
    rw [← hform]
    exact hhigh v

theorem spectrum_complex_subset :
    spectrum ℂ (a.matrix.map Complex.ofReal) ⊆ Complex.ofReal '' spectrum ℝ a.matrix := by
  intro z hz
  have hroot : (a.matrix.charpoly.map Complex.ofRealHom).IsRoot z := by
    rw [← charpoly_map]
    exact mem_spectrum_iff_isRoot_charpoly.mp hz
  rw [a.isHermitian_matrix.charpoly_eq, Polynomial.map_prod, Polynomial.IsRoot,
    Polynomial.eval_prod, Finset.prod_eq_zero_iff] at hroot
  obtain ⟨i, _, hi⟩ := hroot
  refine ⟨_, a.isHermitian_matrix.eigenvalues_mem_spectrum_real i, ?_⟩
  symm
  simpa [sub_eq_zero] using hi

/-- What the outermost ends of the circles tell of a matrix. -/
structure Encircled (low high : ℝ) : Prop where
  low_end : IsLeast
    (Set.range fun i => a.get i i - ∑ j ∈ Finset.univ.erase i, |a.get i j|) low
  high_end : IsGreatest
    (Set.range fun i => a.get i i + ∑ j ∈ Finset.univ.erase i, |a.get i j|) high
  low_le_form : ∀ v : Fin n → ℝ, low * (v ⬝ᵥ v) ≤ v ⬝ᵥ a.matrix *ᵥ v
  form_le_high : ∀ v : Fin n → ℝ, v ⬝ᵥ a.matrix *ᵥ v ≤ high * (v ⬝ᵥ v)
  definite : ∀ c, -low < c → (a.matrix + c • 1).PosDef
  /-- Nothing stops the factorization of a matrix that is shifted so far. -/
  factored : ∀ c, -low < c → ∃ l, (a.addToDiagonal c).cholesky = .ok l
  eigenvalues : spectrum ℝ a.matrix ⊆ Set.Icc low high
  complex_eigenvalues :
    spectrum ℂ (a.matrix.map Complex.ofReal) ⊆ Complex.ofReal '' Set.Icc low high

/-- The bounds are ends of circles, and no direction curves by less or by more than they say. -/
theorem gershgorin_encloses (hn : 0 < n) : a.Encircled a.gershgorin.1 a.gershgorin.2 := by
  have hleast := a.isLeast_gershgorin_fst hn
  have hgreatest := a.isGreatest_gershgorin_snd hn
  simp only [circleRadius_eq] at hleast hgreatest
  have hreal : spectrum ℝ a.matrix ⊆ Set.Icc a.gershgorin.1 a.gershgorin.2 := fun m hm =>
    a.mem_Icc_of_form hm a.gershgorin_fst_mul_le a.le_gershgorin_snd_mul
  exact {
    low_end := hleast
    high_end := hgreatest
    low_le_form := a.gershgorin_fst_mul_le
    form_le_high := a.le_gershgorin_snd_mul
    definite := fun c hc => by
      rw [← matrix_addToDiagonal]
      exact a.posDef_addToDiagonal hc
    factored := fun c hc => exists_cholesky_of_posDef (a.posDef_addToDiagonal hc)
    eigenvalues := hreal
    complex_eigenvalues := a.spectrum_complex_subset.trans (Set.image_mono hreal) }

end Symmetric

noncomputable def springs : Symmetric ℝ 3 := ⟨⟨(#v[2, -1, 2, 0, -1, 2] : Vector ℝ 6)⟩⟩

theorem gershgorin_springs : springs.gershgorin = (0, 4) := by
  have hmatrix : springs.matrix = !![2, -1, 0; -1, 2, -1; 0, -1, 2] := by
    ext i j
    fin_cases i <;> fin_cases j <;> rfl
  have hdiagonal (i : Fin 3) : springs.get i i = 2 := by
    rw [← Symmetric.matrix_apply, hmatrix]
    fin_cases i <;> rfl
  have hradius (i : Fin 3) : springs.circleRadius i = if i = 1 then 2 else 1 := by
    rw [Symmetric.circleRadius_eq, Finset.sum_erase_eq_sub (Finset.mem_univ i), Fin.sum_univ_three]
    simp only [← Symmetric.matrix_apply, hmatrix]
    fin_cases i
    · change |(2 : ℝ)| + |-1| + |0| - |2| = 1
      norm_num
    · change |(-1 : ℝ)| + |2| + |-1| - |2| = 2
      norm_num
    · change |(0 : ℝ)| + |-1| + |2| - |2| = 1
      norm_num
  have hlow := springs.isLeast_gershgorin_fst (by decide)
  have hhigh := springs.isGreatest_gershgorin_snd (by decide)
  simp only [hdiagonal, hradius] at hlow hhigh
  apply Prod.ext
  · refine hlow.unique ⟨⟨1, by norm_num⟩, ?_⟩
    rintro _ ⟨i, rfl⟩
    dsimp only
    split <;> norm_num
  · refine hhigh.unique ⟨⟨1, by norm_num⟩, ?_⟩
    rintro _ ⟨i, rfl⟩
    dsimp only
    split <;> norm_num

theorem gershgorin_encloses_springs : 0 < 3 ∧ springs.Encircled 0 4 := by
  have h := springs.gershgorin_encloses (by decide)
  rw [gershgorin_springs] at h
  exact ⟨by decide, h⟩

end LeastSquares
