import LeastSquares.Proofs.Checked
import LeastSquares.Proofs.Covariance.Calls
import LeastSquares.Proofs.Linear.Inverse
import LeastSquares.Proofs.Linear.Minimizer

namespace LeastSquares

open Matrix

variable {σ ι : Type} {m n p : Nat}

/-- Exact arithmetic with an idea of its own of which numbers are finite. -/
noncomputable abbrev Geometry.within (finite : ℝ → Bool) : Geometry ℝ :=
  { (inferInstance : Geometry ℝ) with isFinite := finite }

/-- Exact arithmetic, in which every number is finite. -/
noncomputable abbrev Geometry.unbounded : Geometry ℝ := within fun _ => true

section

variable (finite : ℝ → Bool)

theorem Sweep.run_within (longest : ℝ) (fixed : Nat) (ks : List (Fin (min m n)))
    (w : Sweep ℝ m n) : @run ℝ m n (Geometry.within finite) longest fixed ks w =
      run longest fixed ks w := by
  induction ks generalizing w with
  | nil => rfl
  | cons k ks ih =>
    unfold run
    simp only [ih]
    rfl

theorem Dense.pivotedQr_within (a : Dense ℝ m n) (fixed : Nat) :
    @pivotedQr ℝ m n (Geometry.within finite) a fixed = a.pivotedQr fixed :=
  Sweep.run_within finite _ fixed _ _

end

/-- The residuals are `A x - b` with the Jacobian `A`, whatever the state. -/
structure Problem.Affine (P : Problem ℝ σ p) (a : Dense ℝ n p) (b : Vector ℝ n) : Prop where
  residuals : ∀ x state, ∃ j, (P.evaluate x .residuals state).1 = .ok ⟨(a.misfit b x).toArray, j⟩
  jacobian : ∀ x state, (P.evaluate x .jacobian state).1 =
    .ok ⟨(a.misfit b x).toArray, some ⟨n, p, a⟩⟩

namespace Problem.Affine

open Covariance

variable {P : Problem ℝ σ p} {a : Dense ℝ n p} {b : Vector ℝ n} (hP : P.Affine a b)
  (finite : ℝ → Bool) (place : ι → Vector ℝ p)
include hP

theorem residuals_answers :
    Answers
      (fun i => @Problem.countedResiduals ℝ σ p (Geometry.within finite).toScalar P n (place i))
      (fun i => (a.misfit b (place i)).all finite) (fun i => a.misfit b (place i)) := by
  have hcall (i : ι) (account : Account σ) :
      (@Problem.countedResiduals ℝ σ p (Geometry.within finite).toScalar P n (place i) account).1 =
        if (a.misfit b (place i)).all finite then .ok (a.misfit b (place i))
        else .error .residualsNotFinite := by
    obtain ⟨j, heval⟩ := hP.residuals (place i) account.state
    exact @countedResiduals_of_evaluate _ _ _ _ (Geometry.within finite).toScalar _ _ _ _ _ heval
  constructor
  · intro i account hgood
    rw [hcall, if_pos hgood]
  · intro i account hbad
    exact ⟨_, by rw [hcall, if_neg (ne_true_of_eq_false hbad)]⟩

theorem linearization_answers :
    Answers
      (fun i => @Problem.countedLinearization ℝ σ p (Geometry.within finite).toScalar P n (place i))
      (fun i => (a.misfit b (place i)).all finite && a.all finite)
      (fun i => (a.misfit b (place i), a)) := by
  have hcall (i : ι) (account : Account σ) :
      (@Problem.countedLinearization ℝ σ p (Geometry.within finite).toScalar P n (place i)
          account).1 =
        if (a.misfit b (place i)).all finite then
          if a.all finite then .ok (a.misfit b (place i), a) else .error .jacobianNotFinite
        else .error .residualsNotFinite :=
    @countedLinearization_of_evaluate _ _ _ _ (Geometry.within finite).toScalar _ _ _ _ _
      (hP.jacobian (place i) account.state)
  constructor
  · intro i account hgood
    obtain ⟨hresiduals, hjacobian⟩ := Bool.and_eq_true_iff.mp hgood
    rw [hcall, if_pos hresiduals, if_pos hjacobian]
  · intro i account hbad
    rcases Bool.and_eq_false_iff.mp hbad with hresiduals | hjacobian
    · exact ⟨_, by rw [hcall, if_neg (ne_true_of_eq_false hresiduals)]⟩
    · cases hresiduals : (a.misfit b (place i)).all finite with
      | true =>
        exact ⟨_, by rw [hcall, if_pos hresiduals, if_neg (ne_true_of_eq_false hjacobian)]⟩
      | false => exact ⟨_, by rw [hcall, if_neg (ne_true_of_eq_false hresiduals)]⟩

end Problem.Affine

theorem foldl_set_finRange {β : Type} (g : Fin n → β) (v : Vector β n) :
    (List.finRange n).foldl (fun v i => v.set i (g i) i.isLt) v = Vector.ofFn g := by
  apply Vector.ext
  intro i hi
  have h := getElem_foldl_set (fun i _ => g i) v le_rfl ⟨i, hi⟩
  rw [List.take_of_length_le (by simp), if_pos hi] at h
  rw [Vector.getElem_ofFn]
  exact h

theorem Symmetric.get_foldl_set_symm {b : Matrix (Fin n) (Fin n) ℝ} (hb : b.IsSymm)
    (l : List (Fin n × Fin n)) (s : Symmetric ℝ n) (i j : Fin n) :
    (l.foldl (fun s k => s.set k.1 k.2 (b k.1 k.2)) s).get i j =
      if (i, j) ∈ l ∨ (j, i) ∈ l then b i j else s.get i j := by
  induction l generalizing s with
  | nil => simp
  | cons k l ih =>
    obtain ⟨r, c⟩ := k
    rw [List.foldl_cons, ih, get_set]
    have hcomm := hb.apply
    grind

namespace Covariance

theorem inverse_spec {h : Symmetric ℝ n} (hdef : h.matrix.PosDef) :
    ∃ m, inverse h = .ok m ∧ m.matrix = h.matrix⁻¹ := by
  obtain ⟨l, hl⟩ := Symmetric.exists_cholesky_of_posDef hdef
  have hdiagonal := Symmetric.cholesky_positiveDiagonal hl
  obtain ⟨x, hx, hinverse⟩ := Lower.invert_transposeTimesSelf fun i => (hdiagonal i).ne'
  rw [Symmetric.cholesky_product hl] at hinverse
  refine ⟨x.transposeTimesSelf.toDense, ?_, (Symmetric.matrix_toDense _).trans hinverse⟩
  rw [inverse, hl]
  dsimp only
  rw [hx]

theorem mem_pairs {i j : Fin p} : (i, j) ∈ pairs p ↔ j ≤ i := by
  simp [pairs, mem_upTo]

noncomputable def along (h : Vector ℝ p) (i : Fin p) : Vector ℝ p := Vector.ofFn (Pi.single i h[i])

theorem coords_along (h : Vector ℝ p) (i : Fin p) : coords (along h i) = Pi.single i h[i] := by
  funext j
  simp [coords, along]

theorem moved_eq (x h : Vector ℝ p) (i : Fin p) : moved x h i = x + along h i := by
  apply coords_injective
  rw [moved, coords_set_add, coords_add, coords_along]

theorem getElem_steps (x d : Vector ℝ p) (factor : ℝ) (i : Fin p) :
    (steps x d factor)[i] = factor * max |x[i]| (1 / d[i]) := by
  have hentry : (steps x d factor)[i] =
      x[i] + factor * max |x[i]| (1 / d[i]) - x[i] := by
    simp [steps, abs_eq]
  rw [hentry, add_sub_cancel_left]

theorem steps_pos {x d : Vector ℝ p} {factor : ℝ} (hd : ∀ i : Fin p, 0 < d[i]) (hf : 0 < factor)
    (i : Fin p) : 0 < (steps x d factor)[i] := by
  rw [getElem_steps]
  exact mul_pos hf (lt_max_of_lt_right (one_div_pos.mpr (hd i)))

variable (a : Dense ℝ n p) (b : Vector ℝ n) (x : Vector ℝ p)

noncomputable def quotient (h : Vector ℝ p) (i : Fin p) : Vector ℝ p :=
  (a.transposeMulVec (a.misfit b (moved x h i)) - a.transposeMulVec (a.misfit b x)).map (· / h[i])

theorem coords_quotient {h : Vector ℝ p} {i : Fin p} (hi : h[i] ≠ 0) :
    coords (quotient a b x h i) = (a.matrixᵀ * a.matrix).col i := by
  rw [quotient, coords_map_div, coords_sub, moved_eq, a.transposeMulVec_misfit_add,
    add_sub_cancel_left, coords_along, mulVec_single]
  funext k
  change h[i]⁻¹ * (_ * h[i]) = _
  rw [mul_comm _ h[i], inv_mul_cancel_left₀ hi]

theorem matrix_quotients {h : Vector ℝ p} (hh : ∀ i : Fin p, h[i] ≠ 0) :
    (⟨Vector.ofFn (quotient a b x h)⟩ : Dense ℝ p p).matrix = a.matrixᵀ * a.matrix := by
  ext i j
  have hcolumn : (Vector.ofFn (quotient a b x h))[j] = quotient a b x h j := by simp
  rw [Dense.matrix_apply, Dense.get, hcolumn]
  exact congrFun (coords_quotient a b x (hh j)) i

theorem second_difference (u v : Vector ℝ p) :
    objective (a.misfit b (x + u + v)) - objective (a.misfit b (x + u)) -
        objective (a.misfit b (x + v)) + objective (a.misfit b x) =
      coords u ⬝ᵥ (a.matrixᵀ * a.matrix) *ᵥ coords v := by
  have hsymm : coords v ⬝ᵥ (a.matrixᵀ * a.matrix) *ᵥ coords u =
      coords u ⬝ᵥ (a.matrixᵀ * a.matrix) *ᵥ coords v := by
    rw [dotProduct_mulVec, ← mulVec_transpose, a.isSymm_normal.eq, dotProduct_comm]
  rw [a.objective_misfit_add b (x + u) v, a.objective_misfit_add b x v,
    a.transposeMulVec_misfit_add, dotProduct_add, hsymm]
  ring

theorem objective_difference {h : Vector ℝ p} {i j : Fin p} (hi : h[i] ≠ 0) (hj : h[j] ≠ 0) :
    (objective (a.misfit b (moved (moved x h i) h j)) - objective (a.misfit b (moved x h i)) -
        objective (a.misfit b (moved x h j)) + objective (a.misfit b x)) / (h[i] * h[j]) =
      (a.matrixᵀ * a.matrix) i j := by
  rw [moved_eq, moved_eq, moved_eq, second_difference, coords_along, coords_along, mulVec_single,
    single_dotProduct]
  change h[i] * (_ * h[j]) / _ = _
  rw [mul_left_comm, mul_div_assoc, div_self (mul_ne_zero hi hj), mul_one]
  rfl

section

variable {a b x} {P : Problem ℝ σ p} {d : Vector ℝ p} {c : Config ℝ} (hP : P.Affine a b)
include hP

theorem gradientColumns_affine (h : Vector ℝ p) (finite : ℝ → Bool) (account : Account σ) :
    (@gradientColumns ℝ σ n p (Geometry.within finite) P
        (Linearized.solution ⟨x, a.misfit b x, a⟩) h (List.finRange p) x
        (Vector.replicate p (Vector.replicate p 0)) account).1 =
      if (List.finRange p).all fun i => (a.misfit b (moved x h i)).all finite && a.all finite then
        .ok ⟨Vector.ofFn (quotient a b x h)⟩
      else .error .callbackFailed := by
  refine (congrArg Prod.fst
    (@gradientColumns_eq ℝ σ n p (Geometry.within finite) P _ h _ _ account)).trans ?_
  refine (congrArg (Except.map Dense.mk) (collect_answers _ _ _
    (hP.linearization_answers finite (moved x h)) account)).trans ?_
  split
  · exact congrArg (fun c => Except.ok (Dense.mk c)) (foldl_set_finRange (quotient a b x h) _)
  · rfl

theorem gradientHessian_affine (hd : ∀ i : Fin p, 0 < d[i]) (hc : 0 < c.fdGradientStep) :
    ∃ H : Symmetric ℝ p, H.matrix = a.matrixᵀ * a.matrix ∧ ∀ finite account,
      (@gradientHessian ℝ σ n p (Geometry.within finite) P
          (Linearized.solution ⟨x, a.misfit b x, a⟩) d c account).1 =
        if (List.finRange p).all fun i =>
            (a.misfit b (moved x (steps x d c.fdGradientStep) i)).all finite && a.all finite then
          .ok H
        else .error .callbackFailed := by
  let columns : Dense ℝ p p := ⟨Vector.ofFn (quotient a b x (steps x d c.fdGradientStep))⟩
  have hcolumns : columns.matrix = a.matrixᵀ * a.matrix :=
    matrix_quotients a b x fun i => (steps_pos hd hc i).ne'
  have hhalves : ((columns.add columns.transpose).scale (1 / 2)).matrix =
      a.matrixᵀ * a.matrix := by
    rw [Dense.matrix_scale, Dense.matrix_add, Dense.matrix_transpose, hcolumns, a.isSymm_normal.eq,
      ← two_smul ℝ, smul_smul]
    norm_num
  refine ⟨.ofDense ((columns.add columns.transpose).scale (1 / 2)), ?_, fun finite account => ?_⟩
  · rw [Symmetric.matrix_ofDense (hhalves ▸ a.isSymm_normal), hhalves]
  · rw [@gradientHessian_fst ℝ σ n p (Geometry.within finite)]
    refine (congrArg (Except.map _)
      (gradientColumns_affine hP (steps x d c.fdGradientStep) finite account)).trans ?_
    split <;> rfl

theorem singles_affine (h : Vector ℝ p) (finite : ℝ → Bool) (account : Account σ) :
    (@singles ℝ σ n p (Geometry.within finite) P (Linearized.solution ⟨x, a.misfit b x, a⟩) h
        (List.finRange p) x (Vector.replicate p 0) account).1 =
      if (List.finRange p).all fun i => (a.misfit b (moved x h i)).all finite then
        .ok (Vector.ofFn fun i => objective (a.misfit b (moved x h i)))
      else .error .callbackFailed := by
  refine (congrArg Prod.fst
    (@singles_eq ℝ σ n p (Geometry.within finite) P _ h _ _ account)).trans ?_
  refine (collect_answers _ _ _ (hP.residuals_answers finite (moved x h)) account).trans ?_
  split
  · exact congrArg Except.ok
      (foldl_set_finRange (fun i => objective (a.misfit b (moved x h i))) (Vector.replicate p 0))
  · rfl

theorem doubles_affine {h : Vector ℝ p} (hh : ∀ i : Fin p, h[i] ≠ 0) (finite : ℝ → Bool)
    (account : Account σ) :
    (@doubles ℝ σ n p (Geometry.within finite) P (Linearized.solution ⟨x, a.misfit b x, a⟩) h
        (Vector.ofFn fun i => objective (a.misfit b (moved x h i))) (pairs p) x (.zeros p)
        account).1 =
      if (pairs p).all fun i => (a.misfit b (moved (moved x h i.1) h i.2)).all finite then
        .ok ((pairs p).foldl (fun s i => s.set i.1 i.2 ((a.matrixᵀ * a.matrix) i.1 i.2)) (.zeros p))
      else .error .callbackFailed := by
  refine (congrArg Prod.fst
    (@doubles_eq ℝ σ n p (Geometry.within finite) P _ h _ _ _ account)).trans ?_
  refine (collect_answers _ _ _
    (hP.residuals_answers finite fun i : Fin p × Fin p => moved (moved x h i.1) h i.2)
    account).trans ?_
  split
  · congr 1
    apply List.foldl_ext
    intro s i _
    have hsingle (i : Fin p) : (Vector.ofFn fun i => objective (a.misfit b (moved x h i)))[i] =
        objective (a.misfit b (moved x h i)) := by simp
    have hvalue := objective_difference a b x (hh i.1) (hh i.2)
    rw [← hsingle i.1, ← hsingle i.2] at hvalue
    exact congrArg (s.set i.1 i.2) hvalue
  · rfl

theorem functionHessian_affine (hd : ∀ i : Fin p, 0 < d[i]) (hc : 0 < c.fdFunctionStep) :
    ∃ H : Symmetric ℝ p, H.matrix = a.matrixᵀ * a.matrix ∧ ∀ finite account,
      (@functionHessian ℝ σ n p (Geometry.within finite) P
          (Linearized.solution ⟨x, a.misfit b x, a⟩) d c account).1 =
        if ((List.finRange p).all fun i =>
            (a.misfit b (moved x (steps x d c.fdFunctionStep) i)).all finite) &&
          (pairs p).all fun i => (a.misfit b
            (moved (moved x (steps x d c.fdFunctionStep) i.1) (steps x d c.fdFunctionStep)
              i.2)).all finite then
          .ok H
        else .error .callbackFailed := by
  refine ⟨(pairs p).foldl (fun s i => s.set i.1 i.2 ((a.matrixᵀ * a.matrix) i.1 i.2)) (.zeros p),
    ?_, fun finite account => ?_⟩
  · apply Symmetric.matrix_eq_of_le a.isSymm_normal
    intro i j hj
    rw [Symmetric.get_foldl_set_symm a.isSymm_normal, if_pos (.inl (mem_pairs.mpr hj))]
  · have hh (i : Fin p) : (steps x d c.fdFunctionStep)[i] ≠ 0 := (steps_pos hd hc i).ne'
    have hsingles := singles_affine (x := x) hP (steps x d c.fdFunctionStep) finite account
    rw [@functionHessian_fst ℝ σ n p (Geometry.within finite)]
    refine (congrArg (· >>= _) hsingles).trans ?_
    cases hall : (List.finRange p).all fun i =>
        (a.misfit b (moved x (steps x d c.fdFunctionStep) i)).all finite with
    | true => exact doubles_affine hP hh finite _
    | false => rfl

end

end Covariance

end LeastSquares
