import LeastSquares.Proofs.Covariance.Differences
import LeastSquares.Proofs.Fit.Solved

namespace LeastSquares

open Matrix

variable {σ : Type} {n p : Nat}

theorem Problem.Linear.affine {P : Problem ℝ σ p} {a : Dense ℝ n p} {b : Vector ℝ n}
    (h : P.Linear a b) : P.Affine a b :=
  ⟨h.residuals, h.jacobian⟩

namespace Dense

variable (a : Dense ℝ n p)

noncomputable def normalInverse : Dense ℝ p p := .ofFn fun i j => (a.matrixᵀ * a.matrix)⁻¹ i j

theorem matrix_normalInverse : a.normalInverse.matrix = (a.matrixᵀ * a.matrix)⁻¹ := matrix_ofFn _

theorem eq_normalInverse {m : Dense ℝ p p} (hm : m.matrix = (a.matrixᵀ * a.matrix)⁻¹) :
    m = a.normalInverse :=
  matrix_injective (hm.trans a.matrix_normalInverse.symm)

theorem normalInverse_sandwich (hdef : (a.matrixᵀ * a.matrix).PosDef) :
    (a.normalInverse.mul (a.transpose.mul a)).mul a.normalInverse = a.normalInverse := by
  apply a.eq_normalInverse
  rw [matrix_mul, matrix_mul, matrix_mul, matrix_transpose, matrix_normalInverse,
    nonsing_inv_mul _ ((isUnit_iff_isUnit_det _).mp hdef.isUnit), Matrix.one_mul]

end Dense

namespace Covariance

theorem inverse_eq_normalInverse {a : Dense ℝ n p} (hdef : (a.matrixᵀ * a.matrix).PosDef)
    {H : Symmetric ℝ p} (hH : H.matrix = a.matrixᵀ * a.matrix) :
    inverse H = .ok a.normalInverse := by
  obtain ⟨m, hm, hmatrix⟩ := inverse_spec (hH ▸ hdef)
  rw [hH] at hmatrix
  rw [hm, a.eq_normalInverse hmatrix]

variable (a : Dense ℝ n p) (b : Vector ℝ n) (x d : Vector ℝ p) (c : Config ℝ)

/-- Where a Hessian from differences looks, in the order in which it does. -/
noncomputable def places : HessianSource → List (Vector ℝ p)
  | .gradientDifferences =>
    (List.finRange p).map (moved x (steps x d c.fdGradientStep))
  | .functionDifferences =>
    (List.finRange p).map (moved x (steps x d c.fdFunctionStep)) ++
      (pairs p).map fun i =>
        moved (moved x (steps x d c.fdFunctionStep) i.1) (steps x d c.fdFunctionStep) i.2

/-- The check of a linear problem's answer at `y` lets it through. -/
noncomputable def passes (finite : ℝ → Bool) (y : Vector ℝ p) : HessianSource → Bool
  | .gradientDifferences => (a.misfit b y).all finite && a.all finite
  | .functionDifferences => (a.misfit b y).all finite

/-- Every answer that a request needs passes. The inverse of the normal matrix needs none. -/
noncomputable def answered (finite : ℝ → Bool) (request : CovarianceRequest) : Bool :=
  request.kind == .inverseNormal ||
    (places x d c request.source).all fun y => passes a b finite y request.source

theorem answered_unbounded (request : CovarianceRequest) :
    answered a b x d c (fun _ => true) request = true := by
  have hpasses (y : Vector ℝ p) (source : HessianSource) :
      passes a b (fun _ => true) y source = true := by
    cases source <;> simp [passes, Dense.all]
  simp [answered, hpasses]

variable {a b x d c} {P : Problem ℝ σ p} (hP : P.Affine a b) (hd : ∀ i : Fin p, 0 < d[i])
  (hc : c.validate p = .ok ())
include hP hd hc

theorem hessian_affine (source : HessianSource) :
    ∃ H : Symmetric ℝ p, H.matrix = a.matrixᵀ * a.matrix ∧ ∀ finite account,
      (@hessian ℝ σ n p (Geometry.within finite) P
          (Linearized.solution ⟨x, a.misfit b x, a⟩) d source c account).1 =
        if (places x d c source).all fun y => passes a b finite y source then .ok H
        else .error .callbackFailed := by
  cases source with
  | gradientDifferences =>
    obtain ⟨H, hH, hanswer⟩ := gradientHessian_affine (x := x) hP hd
      (Config.pos_of_validate hc (f := .fdGradientStep) (by decide))
    refine ⟨H, hH, fun finite account => ?_⟩
    rw [places, List.all_map]
    exact hanswer finite account
  | functionDifferences =>
    obtain ⟨H, hH, hanswer⟩ := functionHessian_affine (x := x) hP hd
      (Config.pos_of_validate hc (f := .fdFunctionStep) (by decide))
    refine ⟨H, hH, fun finite account => ?_⟩
    rw [places, List.all_append, List.all_map, List.all_map]
    exact hanswer finite account

variable (hn : p ≤ n) (hfull : (a.pivotedQr 0).status = .fullRank)
include hn hfull

theorem unscaled_affine (request : CovarianceRequest) (finite : ℝ → Bool) (account : Account σ) :
    (@unscaled ℝ σ n p (Geometry.within finite) P
        (Linearized.solution ⟨x, a.misfit b x, a⟩) d request c account).1 =
      if answered a b x d c finite request then .ok a.normalInverse
      else .error .callbackFailed := by
  have hdef : (a.matrixᵀ * a.matrix).PosDef :=
    PivotedQr.normalMatrix_eq hn hfull ▸ PivotedQr.posDef_normalMatrix hn hfull
  obtain ⟨kind, source⟩ := request
  obtain ⟨H, hH, hanswer⟩ := hessian_affine (x := x) hP hd hc source
  specialize hanswer finite account
  have hneeded (hkind : kind ≠ .inverseNormal) : answered a b x d c finite ⟨kind, source⟩ =
      (places x d c source).all fun y => passes a b finite y source := by
    rw [answered, beq_false_of_ne hkind, Bool.false_or]
  cases kind with
  | inverseNormal =>
    obtain ⟨m, hm, hmatrix⟩ := PivotedQr.normalInverse_spec hn hfull
    rw [← Dense.pivotedQr_within finite] at hm
    refine (@unscaled_inverseNormal ℝ σ n p (Geometry.within finite) _ _ _ _ _ _ hm _).trans ?_
    exact congrArg Except.ok (a.eq_normalInverse (m.matrix_toDense.trans hmatrix))
  | inverseHessian =>
    rw [@unscaled_inverseHessian ℝ σ n p (Geometry.within finite), hneeded nofun]
    refine (congrArg (· >>= inverse) hanswer).trans ?_
    split
    · exact inverse_eq_normalInverse hdef hH
    · rfl
  | sandwich =>
    rw [@unscaled_sandwich ℝ σ n p (Geometry.within finite), hneeded nofun]
    refine (congrArg (· >>= inverse >>= fun m =>
      Except.ok ((m.mul (a.transpose.mul a)).mul m)) hanswer).trans ?_
    split
    · refine (congrArg (· >>= fun m => Except.ok ((m.mul (a.transpose.mul a)).mul m))
        (inverse_eq_normalInverse hdef hH)).trans ?_
      exact congrArg Except.ok (a.normalInverse_sandwich hdef)
    · rfl

end Covariance

section

variable {a : Dense ℝ n p} {b : Vector ℝ n} {x d : Vector ℝ p} {c : Config ℝ}
  {P : Problem ℝ σ p}

/-- Every convention gives the same covariance of a linear model. Over the range of doubles it is
missed only where an answer is beyond that range. -/
theorem covariance_linear (hn : p ≤ n) (hP : P.Affine a b)
    (hfull : (a.pivotedQr 0).status = .fullRank) (hd : ∀ i : Fin p, 0 < d[i])
    (hc : c.validate p = .ok ()) :
    ∃ m : Dense ℝ p p,
      m.matrix = (2 * objective (a.misfit b x) / (max 1 (n - p) : ℕ)) •
        (a.matrixᵀ * a.matrix)⁻¹ ∧
      ∀ code ∈ ([1, 2, 3, -1, -2, -3] : List ℤ), ∃ request,
        CovarianceRequest.ofCode? code = some request ∧ ∀ account,
          (@covariance ℝ σ n p Geometry.unbounded P (Linearized.solution ⟨x, a.misfit b x, a⟩) d
            request c account).1 = .computed m ∧
          (covariance P (Linearized.solution ⟨x, a.misfit b x, a⟩) d request c account).1 =
            if Covariance.answered a b x d c Scalar.isFinite request then .computed m
            else .notComputed .callbackFailed := by
  have hvalue (finite : ℝ → Bool) (request : CovarianceRequest) (account : Account σ) :
      (@covariance ℝ σ n p (Geometry.within finite) P (Linearized.solution ⟨x, a.misfit b x, a⟩) d
        request c account).1 =
        if Covariance.answered a b x d c finite request then
          .computed (a.normalInverse.scale
            (Covariance.factor (Linearized.solution ⟨x, a.misfit b x, a⟩)))
        else .notComputed .callbackFailed := by
    rw [@covariance_fst ℝ σ n p (Geometry.within finite),
      Covariance.unscaled_affine hP hd hc hn hfull]
    cases Covariance.answered a b x d c finite request <;> rfl
  refine ⟨a.normalInverse.scale (Covariance.factor (Linearized.solution ⟨x, a.misfit b x, a⟩)),
    ?_, ?_⟩
  · rw [Dense.matrix_scale, a.matrix_normalInverse, max_comm 1]
    rfl
  · intro code hcode
    have hknown : ∀ code ∈ ([1, 2, 3, -1, -2, -3] : List ℤ),
        (CovarianceRequest.ofCode? code).isSome := by decide
    obtain ⟨request, hrequest⟩ := Option.isSome_iff_exists.mp (hknown code hcode)
    refine ⟨request, hrequest, fun account => ⟨?_, hvalue Scalar.isFinite request account⟩⟩
    rw [hvalue, Covariance.answered_unbounded, if_pos rfl]

end

theorem covariance_linear_corner :
    2 ≤ 2 ∧ Corner.problem.Affine Corner.jacobian Corner.offset ∧
    (Corner.jacobian.pivotedQr 0).status = .fullRank ∧ (∀ i : Fin 2, 0 < (#v[(5 : ℝ), 5])[i]) ∧
    (Config.default : Config ℝ).validate 2 = .ok () ∧
    ∃ m : Dense ℝ 2 2,
      m.matrix = (2 * objective (Corner.jacobian.misfit Corner.offset #v[0, 0]) /
        (max 1 (2 - 2) : ℕ)) • (Corner.jacobian.matrixᵀ * Corner.jacobian.matrix)⁻¹ ∧
      ∀ code ∈ ([1, 2, 3, -1, -2, -3] : List ℤ), ∃ request,
        CovarianceRequest.ofCode? code = some request ∧ ∀ account,
          (@covariance ℝ Unit 2 2 Geometry.unbounded Corner.problem
            (Linearized.solution ⟨#v[0, 0], Corner.jacobian.misfit Corner.offset #v[0, 0],
              Corner.jacobian⟩) #v[5, 5] request .default account).1 = .computed m ∧
          (covariance Corner.problem
            (Linearized.solution ⟨#v[0, 0], Corner.jacobian.misfit Corner.offset #v[0, 0],
              Corner.jacobian⟩) #v[5, 5] request .default account).1 =
            if Covariance.answered Corner.jacobian Corner.offset #v[0, 0] #v[5, 5] .default
              Scalar.isFinite request then .computed m
            else .notComputed .callbackFailed := by
  have hd (i : Fin 2) : 0 < (#v[(5 : ℝ), 5])[i] := by
    fin_cases i <;> exact (by norm_num : (0 : ℝ) < 5)
  exact ⟨le_rfl, Corner.linear_problem.affine, Corner.regular_jacobian.fullRank, hd,
    Config.validate_default 2, covariance_linear le_rfl Corner.linear_problem.affine
      Corner.regular_jacobian.fullRank hd (Config.validate_default 2)⟩

end LeastSquares
