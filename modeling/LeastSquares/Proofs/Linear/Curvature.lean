import LeastSquares.Proofs.Linear.Shifted
import Mathlib.Analysis.Matrix.PosDef

namespace LeastSquares

open Matrix

variable {n : Nat} {a : Symmetric ℝ n} {e : NotPositiveDefinite ℝ n}

namespace Symmetric

theorem posDef_of_spectrum {c : ℝ} (h : ∀ m ∈ spectrum ℝ a.matrix, -c < m) :
    (a.addToDiagonal c).matrix.PosDef := by
  have hsymm := (a.addToDiagonal c).isHermitian_matrix
  rw [hsymm.posDef_iff_eigenvalues_pos]
  intro i
  have hi := hsymm.eigenvalues_mem_spectrum_real i
  generalize hsymm.eigenvalues i = v at hi ⊢
  rw [matrix_addToDiagonal, ← Algebra.algebraMap_eq_smul_one, ← spectrum.add_singleton_eq] at hi
  obtain ⟨m, hm, _, rfl, rfl⟩ := hi
  exact neg_lt_iff_pos_add.mp (h m hm)

theorem exists_isLeast_spectrum (a : Symmetric ℝ n) (i : Fin n) :
    ∃ m, IsLeast (spectrum ℝ a.matrix) m := by
  have : Nonempty (Fin n) := ⟨i⟩
  obtain ⟨j, hj⟩ := Finite.exists_min a.isHermitian_matrix.eigenvalues
  rw [a.isHermitian_matrix.spectrum_real_eq_range_eigenvalues]
  refine ⟨_, ⟨j, rfl⟩, ?_⟩
  rintro _ ⟨k, rfl⟩
  exact hj k

theorem neg_rayleigh_lt (he : a.cholesky = .error e) {c : ℝ}
    (hc : (a.addToDiagonal c).matrix.PosDef) : -e.rayleigh < c := by
  rw [← a.addToDiagonal_zero] at he
  simpa using sub_rayleigh_lt hc he

theorem le_rayleigh_of_isLeast (he : a.cholesky = .error e) {m : ℝ}
    (hm : IsLeast (spectrum ℝ a.matrix) m) : m ≤ e.rayleigh := by
  by_contra hlt
  have hdef : (a.addToDiagonal (-e.rayleigh)).matrix.PosDef := posDef_of_spectrum fun v hv => by
    rw [neg_neg]
    exact (not_le.mp hlt).trans_le (hm.2 hv)
  exact lt_irrefl _ (neg_rayleigh_lt he hdef)

end Symmetric

/-- What the direction of a refused factorization tells of the matrix. -/
structure Curvature (a : Symmetric ℝ n) (e : NotPositiveDefinite ℝ n) : Prop where
  one : e.direction[e.index] = 1
  rest : ∀ i, e.index < i → e.direction[i] = 0
  form : coords e.direction ⬝ᵥ a.matrix *ᵥ coords e.direction = e.factor.get e.index e.index
  reduced : e.factor.get e.index e.index =
    a.get e.index e.index - ∑ j ∈ Finset.Iio e.index, e.factor.get e.index j ^ 2
  nonpos : e.factor.get e.index e.index ≤ 0
  rayleigh_eq : e.rayleigh = (coords e.direction ⬝ᵥ a.matrix *ᵥ coords e.direction) /
    (coords e.direction ⬝ᵥ coords e.direction)
  rayleigh_nonpos : e.rayleigh ≤ 0
  eigenvalue : ∃ m, IsLeast (spectrum ℝ a.matrix) m ∧ m ≤ e.rayleigh
  shift : ∀ c, (a.addToDiagonal c).matrix.PosDef → -e.rayleigh < c

/-- A refused factorization gives a direction along which the matrix is not positive, and with it
bounds on the smallest eigenvalue and on the shifts that would mend that. -/
theorem curvature_of_refused (h : a.cholesky = .error e) : Curvature a e := by
  have hfailed := (Cholesky.rows_spec a).2 e h
  obtain ⟨hone, hzero, -⟩ := NotPositiveDefinite.direction_spec hfailed.diagonal_ne_zero
  obtain ⟨m, hm⟩ := a.exists_isLeast_spectrum e.index
  exact {
    one := hone
    rest := hzero
    form := NotPositiveDefinite.quadraticForm_direction hfailed
    reduced := hfailed.pivot_eq_sq
    nonpos := hfailed.pivot_nonpos
    rayleigh_eq := NotPositiveDefinite.rayleigh_eq hfailed
    rayleigh_nonpos := rayleigh_nonpos h
    eigenvalue := ⟨m, hm, Symmetric.le_rayleigh_of_isLeast h hm⟩
    shift := fun _ => Symmetric.neg_rayleigh_lt h }

/-- The curvature of `x² + 4 x y + y²`, which has a saddle. -/
noncomputable def saddle : Symmetric ℝ 2 := ⟨⟨(#v[1, 2, 1] : Vector ℝ 3)⟩⟩

theorem cholesky_saddle : saddle.cholesky = .error ⟨1, ⟨⟨(#v[1, 2, -3] : Vector ℝ 3)⟩⟩⟩ := by
  have hfirst : Cholesky.row saddle (Lower.zeros 2) 0 = .ok ⟨⟨(#v[1, 0, 0] : Vector ℝ 3)⟩⟩ := by
    have hrow : Cholesky.row saddle (Lower.zeros 2) 0 =
        if (1 : ℝ) ≤ 0 then .error ⟨0, ⟨⟨(#v[1, 0, 0] : Vector ℝ 3)⟩⟩⟩
        else .ok ⟨⟨(#v[√1, 0, 0] : Vector ℝ 3)⟩⟩ := rfl
    rw [hrow, if_neg (by norm_num), Real.sqrt_one]
  have hsecond : Cholesky.row saddle ⟨⟨(#v[1, 0, 0] : Vector ℝ 3)⟩⟩ 1 =
      .error ⟨1, ⟨⟨(#v[1, 2, -3] : Vector ℝ 3)⟩⟩⟩ := by
    have hrow : Cholesky.row saddle ⟨⟨(#v[1, 0, 0] : Vector ℝ 3)⟩⟩ 1 =
        if (1 : ℝ) - 2 / 1 * (2 / 1) ≤ 0 then
          .error ⟨1, ⟨⟨(#v[1, 2 / 1, 1 - 2 / 1 * (2 / 1)] : Vector ℝ 3)⟩⟩⟩
        else .ok ⟨⟨(#v[1, 2 / 1, √(1 - 2 / 1 * (2 / 1))] : Vector ℝ 3)⟩⟩ := rfl
    rw [hrow, if_pos (by norm_num)]
    norm_num
  have hplaces : List.finRange 2 = [0, 1] := rfl
  simp only [Symmetric.cholesky, hplaces, List.foldlM_cons, hfirst, bind, Except.bind, hsecond]

theorem curvature_saddle : Curvature saddle ⟨1, ⟨⟨(#v[1, 2, -3] : Vector ℝ 3)⟩⟩⟩ :=
  curvature_of_refused cholesky_saddle

end LeastSquares
