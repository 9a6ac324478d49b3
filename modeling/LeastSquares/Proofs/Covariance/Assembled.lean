import LeastSquares.Proofs.Covariance.Asked
import LeastSquares.Proofs.Fit.Corner
import LeastSquares.Proofs.Linear.Truncated

namespace LeastSquares

open Matrix

variable {σ : Type} {n p : Nat}

namespace Covariance

def stepFactor (c : Config ℝ) : HessianSource → ℝ
  | .gradientDifferences => c.fdGradientStep
  | .functionDifferences => c.fdFunctionStep

section

variable (finite : ℝ → Bool) (P : Problem ℝ σ p)

noncomputable def askLinearization {ι : Type} (n : Nat) (place : ι → Vector ℝ p) (i : ι) :
    Account σ → Except Failure (Vector ℝ n × Dense ℝ n p) × Account σ :=
  @Problem.countedLinearization ℝ σ p (Geometry.within finite).toScalar P n (place i)

noncomputable def askResiduals {ι : Type} (n : Nat) (place : ι → Vector ℝ p) (i : ι) :
    Account σ → Except Failure (Vector ℝ n) × Account σ :=
  @Problem.countedResiduals ℝ σ p (Geometry.within finite).toScalar P n (place i)

variable (l : Linearized ℝ n p) (h : Vector ℝ p)

/-- Of the calls for a Hessian, made in order, one fails and is the last. -/
def Unanswered (a a' : Account σ) : HessianSource → Prop
  | .gradientDifferences =>
    Fails (askLinearization finite P n fun i => l.x + along h i) (List.finRange p) a a'
  | .functionDifferences =>
    Fails (askResiduals finite P n fun i => l.x + along h i) (List.finRange p) a a' ∨
      ∃ v a₁, Asked (askResiduals finite P n fun i => l.x + along h i) v (List.finRange p) a a₁ ∧
        Fails (askResiduals finite P n fun i : Fin p × Fin p =>
          l.x + along h i.1 + along h i.2) (pairs p) a₁ a'

/-- Difference quotients of the gradient, where `v` are the linearizations along the coordinates. -/
noncomputable def gradientQuotients (v : Fin p → Vector ℝ n × Dense ℝ n p) :
    Matrix (Fin p) (Fin p) ℝ :=
  of fun k i => ((v i).2.matrixᵀ *ᵥ coords (v i).1 -
    l.jacobian.matrixᵀ *ᵥ coords l.residuals) k / h[i]

/-- Every call is answered, and `H` is the Hessian by the differences of the answers. -/
def Differenced (a : Account σ) (H : Symmetric ℝ p) (a' : Account σ) : HessianSource → Prop
  | .gradientDifferences => ∃ v,
    Asked (askLinearization finite P n fun i => l.x + along h i) v (List.finRange p) a a' ∧
      H.matrix = (1 / 2 : ℝ) • (gradientQuotients l h v + (gradientQuotients l h v)ᵀ)
  | .functionDifferences => ∃ v w a₁,
    Asked (askResiduals finite P n fun i => l.x + along h i) v (List.finRange p) a a₁ ∧
      Asked (askResiduals finite P n fun i : Fin p × Fin p =>
        l.x + along h i.1 + along h i.2) w (pairs p) a₁ a' ∧
      ∀ i j, j ≤ i → H.matrix i j = (objective (w (i, j)) - objective (v i) - objective (v j) +
        objective l.residuals) / (h[i] * h[j])

variable {finite P l h} {a a' : Account σ}

theorem unanswered_or_differenced (source : HessianSource) (a : Account σ) :
    (∃ a', Unanswered finite P l h a a' source) ∨
      ∃ H a', Differenced finite P l h a H a' source := by
  cases source with
  | gradientDifferences =>
    rcases asked_or_fails (askLinearization finite P n fun i => l.x + along h i)
      (l.residuals, l.jacobian) (List.nodup_finRange p) a with ⟨v, a', hasked⟩ | hfails
    · let m : Dense ℝ p p := .ofFn
        ((1 / 2 : ℝ) • (gradientQuotients l h v + (gradientQuotients l h v)ᵀ))
      have hm : m.matrix = (1 / 2 : ℝ) • (gradientQuotients l h v + (gradientQuotients l h v)ᵀ) :=
        Dense.matrix_ofFn _
      have hsymm : m.matrix.IsSymm := by
        rw [hm]
        exact (isSymm_add_transpose_self _).smul _
      exact .inr ⟨.ofDense m, a', v, hasked, (Symmetric.matrix_ofDense hsymm).trans hm⟩
    · exact .inl hfails
  | functionDifferences =>
    rcases asked_or_fails (askResiduals finite P n fun i => l.x + along h i) l.residuals
      (List.nodup_finRange p) a with ⟨v, a₁, hsingles⟩ | ⟨a', hfails⟩
    · rcases asked_or_fails (askResiduals finite P n fun i : Fin p × Fin p =>
          l.x + along h i.1 + along h i.2) l.residuals (nodup_pairs p) a₁
        with ⟨w, a', hdoubles⟩ | ⟨a', hfails⟩
      · refine .inr ⟨.ofFn fun i j => (objective (w (i, j)) - objective (v i) - objective (v j) +
          objective l.residuals) / (h[i] * h[j]), a', v, w, a₁, hsingles, hdoubles, ?_⟩
        intro i j hj
        rw [Symmetric.matrix_apply, Symmetric.get_ofFn, if_pos hj]
      · exact .inl ⟨a', .inr ⟨v, a₁, hsingles, hfails⟩⟩
    · exact .inl ⟨a', .inl hfails⟩

end

theorem matrix_gradientQuotients (l : Linearized ℝ n p) (h : Vector ℝ p)
    (v : Fin p → Vector ℝ n × Dense ℝ n p) :
    (⟨Vector.ofFn fun i => ((v i).2.transposeMulVec (v i).1 - l.gradient).map (· / h[i])⟩ :
      Dense ℝ p p).matrix = gradientQuotients l h v := by
  ext k i
  have hcolumn : (Vector.ofFn fun i =>
      ((v i).2.transposeMulVec (v i).1 - l.gradient).map (· / h[i]))[i] =
        ((v i).2.transposeMulVec (v i).1 - l.gradient).map (· / h[i]) := Vector.getElem_ofFn _
  rw [Dense.matrix_apply, Dense.get, hcolumn, ← coords_apply, coords_map_div, coords_sub,
    Linearized.gradient, Dense.coords_transposeMulVec, Dense.coords_transposeMulVec,
    Pi.smul_apply, smul_eq_mul, inv_mul_eq_div]
  rfl

theorem foldl_set_pairs {H : Symmetric ℝ p} {g : Fin p × Fin p → ℝ}
    (hg : ∀ i j, j ≤ i → H.matrix i j = g (i, j)) (s : Symmetric ℝ p) :
    (pairs p).foldl (fun m i => m.set i.1 i.2 (g i)) s = H := by
  have hvalues : (pairs p).foldl (fun m i => m.set i.1 i.2 (g i)) s =
      (pairs p).foldl (fun m i => m.set i.1 i.2 (H.matrix i.1 i.2)) s := by
    apply List.foldl_ext
    intro m i hi
    rw [hg _ _ (mem_pairs.mp hi)]
  rw [hvalues]
  apply Symmetric.matrix_injective
  apply Symmetric.matrix_eq_of_le H.isSymm_matrix
  intro i j hj
  rw [Symmetric.get_foldl_set_symm H.isSymm_matrix, if_pos (.inl (mem_pairs.mpr hj))]

section

variable {finite : ℝ → Bool} {P : Problem ℝ σ p} {l : Linearized ℝ n p} {d : Vector ℝ p}
  {c : Config ℝ} {source : HessianSource} {a a' : Account σ} {H : Symmetric ℝ p}

theorem hessian_of_unanswered
    (h : Unanswered finite P l (steps l.x d (stepFactor c source)) a a' source) :
    @hessian ℝ σ n p (Geometry.within finite) P l.solution d source c a =
      (.error .callbackFailed, a') := by
  cases source with
  | gradientDifferences =>
    simp only [Unanswered, ← moved_eq] at h
    exact @gradientHessian_of_fails ℝ σ n p (Geometry.within finite) P l.solution d c a a' h
  | functionDifferences =>
    simp only [Unanswered, ← moved_eq] at h
    rcases h with h | ⟨v, a₁, hsingles, h⟩
    · exact @functionHessian_of_singles_fail ℝ σ n p (Geometry.within finite) P l.solution d c a
        a' h
    · exact @functionHessian_of_doubles_fail ℝ σ n p (Geometry.within finite) P l.solution d c a
        a₁ a' v hsingles h

theorem hessian_of_differenced
    (h : Differenced finite P l (steps l.x d (stepFactor c source)) a H a' source) :
    @hessian ℝ σ n p (Geometry.within finite) P l.solution d source c a = (.ok H, a') := by
  cases source with
  | gradientDifferences =>
    simp only [Differenced, ← moved_eq] at h
    obtain ⟨v, hasked, hH⟩ := h
    let m : Dense ℝ p p := ⟨Vector.ofFn fun i => ((v i).2.transposeMulVec (v i).1 -
      l.gradient).map (· / (steps l.x d c.fdGradientStep)[i])⟩
    have hm : m.matrix = gradientQuotients l (steps l.x d c.fdGradientStep) v :=
      matrix_gradientQuotients l _ v
    -- Half the sum with the transpose is symmetric, so that nothing of it is lost when it is
    -- packed.
    have hhalves : ((m.add m.transpose).scale (1 / 2)).matrix = H.matrix := by
      rw [Dense.matrix_scale, Dense.matrix_add, Dense.matrix_transpose, hm, hH]
      rfl
    refine (@gradientHessian_of_asked ℝ σ n p (Geometry.within finite) P l.solution d c a a' v
      hasked m rfl).trans ?_
    have hsame : Symmetric.ofDense ((m.add m.transpose).scale (1 / 2)) = H := by
      apply Symmetric.matrix_injective
      rw [Symmetric.matrix_ofDense (hhalves ▸ H.isSymm_matrix), hhalves]
    exact congrArg (fun H => (Except.ok H, a')) hsame
  | functionDifferences =>
    simp only [Differenced, ← moved_eq] at h
    obtain ⟨v, w, a₁, hsingles, hdoubles, hH⟩ := h
    refine (@functionHessian_of_asked ℝ σ n p (Geometry.within finite) P l.solution d c a a₁ a' v w
      hsingles hdoubles).trans ?_
    have hsame : (pairs p).foldl (fun m i => m.set i.1 i.2
        ((objective (w i) - objective (v i.1) - objective (v i.2) + l.solution.f) /
          ((steps l.x d c.fdFunctionStep)[i.1] * (steps l.x d c.fdFunctionStep)[i.2])))
        (.zeros p) = H :=
      foldl_set_pairs hH _
    exact congrArg (fun H => (Except.ok H, a')) hsame

theorem inverse_of_not_posDef (h : ¬H.matrix.PosDef) :
    inverse H = .error .hessianIndefinite := by
  unfold inverse
  cases hl : H.cholesky with
  | error e => rfl
  | ok l => exact absurd (Symmetric.posDef_of_cholesky hl) h

end

noncomputable def variance (l : Linearized ℝ n p) : ℝ :=
  2 * objective l.residuals / (max 1 (n - p) : ℕ)

theorem factor_solution (l : Linearized ℝ n p) : factor l.solution = variance l := by
  rw [variance, max_comm]
  rfl

theorem variance_nonneg (l : Linearized ℝ n p) : 0 ≤ variance l :=
  div_nonneg (mul_nonneg zero_le_two (objective_nonneg _)) (Nat.cast_nonneg _)

/-- What is told of a covariance `C` that was computed from the Hessian `H`. -/
structure Covers (l : Linearized ℝ n p) (H : Symmetric ℝ p) (kind : CovarianceKind)
    (C : Dense ℝ p p) : Prop where
  symm : C.matrix.IsSymm
  posSemidef : C.matrix.PosSemidef
  sandwich : kind = .sandwich →
    H.matrix * C.matrix * H.matrix = variance l • (l.jacobian.matrixᵀ * l.jacobian.matrix)
  inverseHessian : kind = .inverseHessian →
    H.matrix * C.matrix = variance l • (1 : Matrix (Fin p) (Fin p) ℝ) ∧
      C.matrix * H.matrix = variance l • (1 : Matrix (Fin p) (Fin p) ℝ)

section

variable (l : Linearized ℝ n p) {H : Symmetric ℝ p} {m : Dense ℝ p p}
  (hdef : H.matrix.PosDef) (hm : m.matrix = H.matrix⁻¹)
include hdef hm

theorem covers_sandwich :
    Covers l H .sandwich ((ofInverse l.solution m .sandwich).scale (variance l)) := by
  have hunit : IsUnit H.matrix.det := (isUnit_iff_isUnit_det _).mp hdef.isUnit
  have hmatrix : ((ofInverse l.solution m .sandwich).scale (variance l)).matrix =
      variance l • (H.matrix⁻¹ * (l.jacobian.matrixᵀ * l.jacobian.matrix) * H.matrix⁻¹) := by
    rw [Dense.matrix_scale, ofInverse, Dense.matrix_mul, Dense.matrix_mul, Dense.matrix_mul,
      Dense.matrix_transpose, hm]
    rfl
  have hnormal : (l.jacobian.matrixᵀ * l.jacobian.matrix).PosSemidef :=
    posSemidef_conjTranspose_mul_self l.jacobian.matrix
  have hmiddle := hnormal.mul_mul_conjTranspose_same H.matrix⁻¹
  rw [hdef.inv.isHermitian.eq] at hmiddle
  have hpos := hmiddle.smul (variance_nonneg l)
  rw [← hmatrix] at hpos
  refine ⟨hpos.isHermitian, hpos, fun _ => ?_, nofun⟩
  rw [hmatrix, Matrix.mul_smul, Matrix.smul_mul, Matrix.mul_assoc H.matrix⁻¹,
    mul_nonsing_inv_cancel_left _ _ hunit, nonsing_inv_mul_cancel_right _ _ hunit]

theorem covers_inverseHessian :
    Covers l H .inverseHessian ((ofInverse l.solution m .inverseHessian).scale (variance l)) := by
  have hunit : IsUnit H.matrix.det := (isUnit_iff_isUnit_det _).mp hdef.isUnit
  have hmatrix : ((ofInverse l.solution m .inverseHessian).scale (variance l)).matrix =
      variance l • H.matrix⁻¹ := by
    have hsame : ofInverse l.solution m .inverseHessian = m := rfl
    rw [Dense.matrix_scale, hsame, hm]
  have hpos := hdef.inv.posSemidef.smul (variance_nonneg l)
  rw [← hmatrix] at hpos
  refine ⟨hpos.isHermitian, hpos, nofun, fun _ => ?_⟩
  rw [hmatrix, Matrix.mul_smul, Matrix.smul_mul, mul_nonsing_inv _ hunit,
    nonsing_inv_mul _ hunit]
  exact ⟨rfl, rfl⟩

end

/-- What a request for a covariance comes to. -/
structure Assembled (finite : ℝ → Bool) (P : Problem ℝ σ p) (l : Linearized ℝ n p)
    (d : Vector ℝ p) (c : Config ℝ) (source : HessianSource) (a : Account σ) : Prop where
  step : ∀ i : Fin p,
    (steps l.x d (stepFactor c source))[i] =
        stepFactor c source * max |l.x[i]| (1 / d[i]) ∧
      (0 < stepFactor c source → 0 < (steps l.x d (stepFactor c source))[i])
  settled : (∃ a', Unanswered finite P l (steps l.x d (stepFactor c source)) a a' source) ∨
    ∃ H a', Differenced finite P l (steps l.x d (stepFactor c source)) a H a' source
  unanswered : ∀ kind a', kind ≠ .inverseNormal →
    Unanswered finite P l (steps l.x d (stepFactor c source)) a a' source →
    @covariance ℝ σ n p (Geometry.within finite) P l.solution d ⟨kind, source⟩ c a =
      (.notComputed .callbackFailed, a')
  indefinite : ∀ kind H a', kind ≠ .inverseNormal →
    Differenced finite P l (steps l.x d (stepFactor c source)) a H a' source →
    ¬H.matrix.PosDef →
    @covariance ℝ σ n p (Geometry.within finite) P l.solution d ⟨kind, source⟩ c a =
      (.notComputed .hessianIndefinite, a')
  definite : ∀ kind H a', kind ≠ .inverseNormal →
    Differenced finite P l (steps l.x d (stepFactor c source)) a H a' source →
    H.matrix.PosDef → ∃ C,
      @covariance ℝ σ n p (Geometry.within finite) P l.solution d ⟨kind, source⟩ c a =
        (.computed C, a') ∧ Covers l H kind C
  deficient : (l.jacobian.pivotedQr 0).rank < p ↔
    @covariance ℝ σ n p (Geometry.within finite) P l.solution d ⟨.inverseNormal, source⟩ c a =
      (.notComputed .rankDeficientJacobian, a)
  full : p ≤ (l.jacobian.pivotedQr 0).rank → ∃ C,
    @covariance ℝ σ n p (Geometry.within finite) P l.solution d ⟨.inverseNormal, source⟩ c a =
        (.computed C, a) ∧
      l.jacobian.matrixᵀ * l.jacobian.matrix * C.matrix =
        variance l • (1 : Matrix (Fin p) (Fin p) ℝ)

section

variable {finite : ℝ → Bool} {P : Problem ℝ σ p} {l : Linearized ℝ n p} {d : Vector ℝ p}
  {c : Config ℝ} {source : HessianSource} {kind : CovarianceKind} {a a' : Account σ}
  {H : Symmetric ℝ p}

theorem covariance_of_differenced (hkind : kind ≠ .inverseNormal)
    (h : Differenced finite P l (steps l.x d (stepFactor c source)) a H a' source) :
    @covariance ℝ σ n p (Geometry.within finite) P l.solution d ⟨kind, source⟩ c a =
      (outcome l.solution kind (inverse H), a') :=
  @covariance_of_hessian ℝ σ n p (Geometry.within finite) P l.solution d c a a' source kind _ hkind
    (hessian_of_differenced h)

theorem covers_of_posDef (hkind : kind ≠ .inverseNormal) (hdef : H.matrix.PosDef) :
    ∃ C, outcome l.solution kind (inverse H) = .computed C ∧ Covers l H kind C := by
  obtain ⟨m, hinverse, hm⟩ := inverse_spec hdef
  refine ⟨(ofInverse l.solution m kind).scale (variance l), ?_, ?_⟩
  · rw [hinverse, outcome, factor_solution]
  · cases kind with
    | inverseNormal => exact absurd rfl hkind
    | inverseHessian => exact covers_inverseHessian l hdef hm
    | sandwich => exact covers_sandwich l hdef hm

end

section

variable (finite : ℝ → Bool) (P : Problem ℝ σ p) {l : Linearized ℝ n p} (d : Vector ℝ p)
  (c : Config ℝ) (source : HessianSource) (a : Account σ)

theorem covariance_of_rank_lt (hrank : (l.jacobian.pivotedQr 0).rank < p) :
    @covariance ℝ σ n p (Geometry.within finite) P l.solution d ⟨.inverseNormal, source⟩ c a =
      (.notComputed .rankDeficientJacobian, a) := by
  have herror := ((PivotedQr.normal_pivotedQr l.jacobian 0).error _).mpr ⟨hrank, rfl⟩
  rw [← Dense.pivotedQr_within finite] at herror
  exact @covariance_inverseNormal_of_error ℝ σ n p (Geometry.within finite) P l.solution d c a
    source _ herror

theorem covariance_of_le_rank (hrank : p ≤ (l.jacobian.pivotedQr 0).rank) : ∃ C,
    @covariance ℝ σ n p (Geometry.within finite) P l.solution d ⟨.inverseNormal, source⟩ c a =
        (.computed C, a) ∧
      l.jacobian.matrixᵀ * l.jacobian.matrix * C.matrix =
        variance l • (1 : Matrix (Fin p) (Fin p) ℝ) := by
  obtain ⟨m, hm, -, hright⟩ := (PivotedQr.normal_pivotedQr l.jacobian 0).inverse hrank
  rw [← Dense.pivotedQr_within finite] at hm
  refine ⟨m.toDense.scale (factor l.solution),
    @covariance_inverseNormal_of_ok ℝ σ n p (Geometry.within finite) P l.solution d c a source _
      hm, ?_⟩
  rw [Dense.matrix_scale, m.matrix_toDense, Matrix.mul_smul, hright, factor_solution]

end

/-- In exact arithmetic, and whichever numbers count as finite, a covariance is computed from the
Hessian by differences about the point, if all the calls for it are answered and it is positive
definite. The inverse of the normal matrix takes no call. -/
theorem covariance_assembled (finite : ℝ → Bool) (P : Problem ℝ σ p) (l : Linearized ℝ n p)
    {d : Vector ℝ p} (hd : ∀ i : Fin p, 0 < d[i]) (c : Config ℝ) (source : HessianSource)
    (a : Account σ) : Assembled finite P l d c source a := by
  constructor
  case step => exact fun i => ⟨getElem_steps _ _ _ i, fun hfactor => steps_pos hd hfactor i⟩
  case settled => exact unanswered_or_differenced source a
  case unanswered =>
    intro kind a' hkind h
    exact @covariance_of_hessian ℝ σ n p (Geometry.within finite) P l.solution d c a a' source
      kind _ hkind (hessian_of_unanswered h)
  case indefinite =>
    intro kind H a' hkind h hdef
    rw [covariance_of_differenced hkind h, inverse_of_not_posDef hdef]
    rfl
  case definite =>
    intro kind H a' hkind h hdef
    obtain ⟨C, hC, hcovers⟩ := covers_of_posDef hkind hdef
    exact ⟨C, by rw [covariance_of_differenced hkind h, hC], hcovers⟩
  case deficient =>
    refine ⟨covariance_of_rank_lt finite P d c source a, fun h => lt_of_not_ge fun hrank => ?_⟩
    obtain ⟨C, hC, -⟩ := covariance_of_le_rank finite P d c source a hrank
    rw [h] at hC
    cases hC
  case full => exact covariance_of_le_rank finite P d c source a

theorem covariance_assembled_at_origin : (∀ i : Fin 2, 0 < (#v[(5 : ℝ), 5])[i]) ∧
    Assembled Scalar.isFinite Corner.problem ⟨#v[0, 0], #v[9 / 2, 1 / 4], Corner.jacobian⟩ #v[5, 5]
      .default .functionDifferences ⟨(), 0, 0⟩ := by
  have hd (i : Fin 2) : 0 < (#v[(5 : ℝ), 5])[i] := by
    fin_cases i <;> exact (by norm_num : (0 : ℝ) < 5)
  exact ⟨hd, covariance_assembled Scalar.isFinite Corner.problem
    ⟨#v[0, 0], #v[9 / 2, 1 / 4], Corner.jacobian⟩ hd .default .functionDifferences ⟨(), 0, 0⟩⟩

end Covariance

end LeastSquares
