import LeastSquares.Proofs.Fit.Corner
import LeastSquares.Proofs.Fit.Linear

namespace LeastSquares

open Matrix

variable {σ : Type} {n p : Nat}

theorem gradientMisfit_eq_zero {h : Symmetric ℝ p} {step y : Vector ℝ p} (d : Vector ℝ p)
    (hy : coords y = h.matrix *ᵥ coords step) : gradientMisfit h step y d = 0 := by
  rw [gradientMisfit, norm_eq_zero, coords_overEach, coords_sub, Symmetric.coords_mulVec, hy,
    sub_self]
  funext i
  exact zero_div _

namespace Dense

variable {a : Dense ℝ n p} {b : Vector ℝ n} {x v : Vector ℝ p}

theorem GaussNewton.isFinite (hv : a.GaussNewton b x v) (hdef : (a.matrixᵀ * a.matrix).PosDef)
    (hx : Scalar.isFinite (objective (a.misfit b x)) = true) :
    Scalar.isFinite (objective (a.misfit b (x + v))) = true := by
  have hform := hdef.posSemidef.dotProduct_mulVec_nonneg (coords v)
  rw [star_trivial] at hform
  have hle : objective (a.misfit b (x + v)) ≤ objective (a.misfit b x) := by
    rw [hv.objective_add]
    linarith
  rw [isFinite_iff, abs_of_nonneg (objective_nonneg _)] at hx ⊢
  exact hle.trans hx

theorem gaussNewton_zero (hx : coords (a.transposeMulVec (a.misfit b x)) = 0) :
    a.GaussNewton b x (Vector.replicate p 0) := by
  rw [GaussNewton, hx, coords_replicate_zero, mulVec_zero, neg_zero]

end Dense

namespace Setup

variable {s : Setup ℝ σ p} {h : Head ℝ σ n p} {a : Dense ℝ n p} {b : Vector ℝ n}
  {v : Vector ℝ p}

section

variable (hP : s.problem.Linear a b) (hbounds : s.bounds = none) (hc : s.config.Solves p)
  (ha : a.Regular s.config.scaleFloor)
include hP hbounds hc ha

theorem leads_nowhere (hh : h.Linear a b)
    (hx : coords h.gradient = 0)
    (hfinite : Scalar.isFinite (objective (a.misfit b h.run.search.iterate.x₀)) = true) :
    s.Leads h a b (Vector.replicate p 0) := by
  have hplace : h.run.search.iterate.x₀ + Vector.replicate p 0 = h.run.search.iterate.x₀ := by
    apply coords_injective
    rw [coords_add, coords_replicate_zero, add_zero]
  have hlength : Geometry.norm (timesEach (Vector.replicate p (0 : ℝ)) a.columnNorms) = 0 := by
    rw [norm_eq_zero, coords_timesEach, coords_replicate_zero, zero_mul]
  have hphi := (Config.ranges_of_validate hc.valid).2.1.2.2
  refine ⟨hP, hbounds, hc, ha, hh, ?_, ?_, ?_⟩
  · rw [hh.gradient] at hx
    exact Dense.gaussNewton_zero hx
  · have hradius := mul_nonneg hphi hh.radius.le
    have hpos := hh.radius
    rw [hlength]
    linarith
  · rw [hplace]
    exact hfinite

end

theorem opening_of_misfit (s : Setup ℝ σ p) {r : Run ℝ σ n p} {t : Accepted ℝ n p}
    (hprevious : r.previous = some t) (hmodel : r.search.iterate.model = .gaussNewton)
    (hmisfit : gradientMisfit t.hessian (r.search.iterate.x - t.x)
      (r.base.gradient - t.gradient) t.d = 0) :
    (remembered (s.opening r).run).isFresh = true ∧ ∃ radius record,
      (s.opening r).run.search = { r.search with
        iterate := { r.search.iterate with
          x₀ := r.search.iterate.x
          f₀ := r.search.iterate.f
          d := s.config.updateScale r.base.jacobian none false r.search.iterate.d
          radius
          stageLimit := 2
          oversized := false }
        record } := by
  obtain ⟨warnings, hopening⟩ := s.opening_next hprevious
  obtain ⟨radius, secant, hlearn⟩ := Run.learn_of_misfit s.config r.base.gradient
    (r := { r with iterations := r.iterations + 1, warnings }) hmisfit
  rw [hlearn] at hopening
  rw [hopening]
  constructor
  · unfold remembered
    split <;> rfl
  · unfold Run.rescale Run.openIteration Search.beginIteration
    dsimp only
    rw [hmodel]
    exact ⟨radius, _, rfl⟩

namespace Leads

variable (hl : s.Leads h a b v)
include hl

theorem misfit_accepted {r : Run ℝ σ n p}
    (hx : r.search.iterate.x = h.run.search.iterate.x₀ + v) :
    gradientMisfit (s.accepted h).hessian (r.search.iterate.x - (s.accepted h).x)
      (a.transposeMulVec (a.misfit b r.search.iterate.x) - (s.accepted h).gradient)
      (s.accepted h).d = 0 := by
  have hplace : (s.accepted h).x = h.run.search.iterate.x₀ := by
    change (s.judged h).search.iterate.x₀ = _
    rw [(s.judged_judged hl.head.steady).1.x₀_eq, scored_eq]
  have hhessian : (s.accepted h).hessian = h.normal := by
    change (s.tried h).hessian h.normal = _
    rw [tried_hessian, Run.hessian, hl.head.model]
    rfl
  have hgradient : (s.accepted h).gradient =
      a.transposeMulVec (a.misfit b h.run.search.iterate.x₀) := hl.head.gradient
  apply gradientMisfit_eq_zero
  rw [hx, hplace, hhessian, hgradient, hl.head.normal, hl.regular.matrix_normalMatrix, coords_sub,
    coords_sub, coords_add, add_sub_cancel_left, hl.step.gradient_add, zero_sub]
  exact hl.step.symm

theorem linear_opening {r : Run ℝ σ n p} (hprevious : r.previous = some (s.accepted h))
    (hbase : r.base = ⟨r.search.iterate.x, a.misfit b r.search.iterate.x, a⟩)
    (hv : r.search.verdict = .acceptByGradient)
    (hiterate : r.search.iterate = (s.scored h).iterate) :
    (s.opening r).Linear a b ∧
      (s.opening r).run.search.iterate.x₀ = h.run.search.iterate.x₀ + v := by
  have hiterate := hiterate.trans hl.scored_iterate
  have hx : r.search.iterate.x = h.run.search.iterate.x₀ + v := by rw [hiterate]
  have hmodel : r.search.iterate.model = .gaussNewton := by
    rw [hiterate]
    exact hl.head.model
  have hd : r.search.iterate.d = a.columnNorms := by
    rw [hiterate]
    exact hl.head.d
  have hradius : 0 < r.search.iterate.radius := by
    rw [hiterate]
    exact hl.head.radius
  have hgradient : r.base.gradient = a.transposeMulVec (a.misfit b r.search.iterate.x) := by
    rw [hbase]
    rfl
  have hscale : s.config.updateScale r.base.jacobian none false r.search.iterate.d =
      a.columnNorms := by
    rw [hbase]
    exact Config.updateScale_eq hl.config.toLevels hl.regular.columns (.inr hd)
  have hmisfit := hl.misfit_accepted hx
  rw [← hgradient] at hmisfit
  obtain ⟨hfresh, radius, record, hsearch⟩ := s.opening_of_misfit hprevious hmodel hmisfit
  have hplace : (s.opening r).run.search.iterate.x₀ = r.search.iterate.x := by rw [hsearch]
  refine ⟨{
    first := ?first
    fresh := hfresh
    gradient := ?gradient
    normal := ?normal
    model := ?model
    d := ?d
    f₀ := ?f₀
    radius := s.opening_radius hradius
    steady := s.steady_opening (.inl hv) }, hplace.trans hx⟩
  case first =>
    rw [hsearch]
    exact .inl hv
  case gradient =>
    rw [hplace]
    exact hgradient
  case normal =>
    rw [← show r.base.jacobian = a by rw [hbase]]
    rfl
  case model =>
    rw [hsearch]
    exact hmodel
  case d => rw [hsearch, ← hscale]
  case f₀ => rw [hplace, hsearch, hx, hiterate]

theorem next (hv : (s.judged h).search.verdict = .acceptByGradient)
    (hiterate : (s.judged h).search.iterate = (s.scored h).iterate) :
    ∃ r, s.followed h = (r, .accepted) ∧ (s.opening r).Linear a b ∧
      (s.opening r).run.search.iterate.x₀ = h.run.search.iterate.x₀ + v := by
  have hx : (s.judged h).search.iterate.x = h.run.search.iterate.x₀ + v := by
    rw [hiterate, hl.scored_iterate]
  have hfinite := hl.finite
  rw [← hx] at hfinite
  have hanswer := s.linear_linearization hl.problem hfinite hl.regular.finite (s.judged h).account
  obtain ⟨r, hr⟩ := s.followed_of_answered h hv hanswer hl.problem.goesOn
  obtain ⟨-, u, j, account, state, hj, rfl⟩ := s.followed_accepted h hr
  rw [hj] at hanswer
  cases hanswer
  exact ⟨_, hr, hl.linear_opening rfl rfl hv hiterate⟩

end Leads

end Setup

theorem Outcome.eq_of_allowsCovariance {o : Outcome} (h : o.allowsCovariance = true) :
    o = .xConverged ∨ o = .relFuncConverged ∨ o = .bothConverged ∨ o = .absFuncConverged := by
  cases o <;> first | cases h; done | simp

namespace Setup

variable {s : Setup ℝ σ p} {h : Head ℝ σ n p} {a : Dense ℝ n p} {b : Vector ℝ n}
  {v : Vector ℝ p}

theorem followed_of_converges (hv : (s.judged h).search.verdict.Converges) :
    ∃ o, s.followed h = (s.judged h, .finished o) ∧ o.allowsCovariance = true := by
  obtain ⟨o, ho, hallowed⟩ := hv.outcome?
  refine ⟨o, ?_, hallowed⟩
  unfold followed follow
  cases hverdict : (s.judged h).search.verdict <;> rw [hverdict] at hv ho <;>
    first | exact hv.elim | (obtain rfl := Option.some.inj ho; rfl)

theorem Leads.run {r₀ : Run ℝ σ n p} (hl : s.Leads (s.opening r₀) a b v)
    (hlength : Geometry.norm (timesEach v a.columnNorms) ≤ s.config.initialTrustRadius)
    (hevals : r₀.account.functionEvals + 1 < s.config.maxFunctionEvals) (k : Nat) :
    ∃ r o, s.runFor (k + 2) r₀ = (r, o) ∧ o.allowsCovariance = true ∧
      (s.finish r o).1.params = (s.opening r₀).run.search.iterate.x₀ + v ∧
      (s.finish r o).1.outcome = o ∧ (s.finish r o).1.iterations ≤ r₀.iterations + 2 := by
  have hcontinues : s.Continues (s.opening r₀) := by
    rw [Continues, opening_account]
    omega
  have hfirst {o : Outcome} (ho : o.allowsCovariance = true)
      (hr : s.followed (s.opening r₀) = (s.judged (s.opening r₀), .finished o))
      (hx : (s.judged (s.opening r₀)).search.iterate.x =
        (s.opening r₀).run.search.iterate.x₀ + v) :
      ∃ r o, s.runFor (k + 2) r₀ = (r, o) ∧ o.allowsCovariance = true ∧
        (s.finish r o).1.params = (s.opening r₀).run.search.iterate.x₀ + v ∧
        (s.finish r o).1.outcome = o ∧ (s.finish r o).1.iterations ≤ r₀.iterations + 2 := by
    obtain ⟨hparams, houtcome, hiterations⟩ := hl.finish_eq o hx
    rw [opening_iterations] at hiterations
    exact ⟨_, o, s.runFor_of_finished (k + 1) hcontinues hr, ho, hparams, houtcome, by omega⟩
  by_cases hmoves : coords v = 0
  · obtain ⟨hr, hx⟩ := hl.followed_rests hmoves
    exact hfirst rfl hr hx
  obtain ⟨hiterate, hconverges | hv⟩ := hl.judged_foretold hlength hmoves
  · obtain ⟨o, hr, ho⟩ := followed_of_converges hconverges
    exact hfirst ho hr (by rw [hiterate, hl.scored_iterate])
  obtain ⟨r, hr, hlinear, hplace⟩ := hl.next hv hiterate
  have hgradient : coords (s.opening r).gradient = 0 := by
    rw [hlinear.gradient, hplace]
    exact hl.step.gradient_add
  have hfinite := hl.finite
  rw [← hplace] at hfinite
  have hlast := leads_nowhere hl.problem hl.bounds hl.config hl.regular hlinear hgradient hfinite
  have hcount := s.followed_functionEvals (s.opening r₀)
  rw [hr, opening_account] at hcount
  have hlastContinues : s.Continues (s.opening r) := by
    rw [Continues, opening_account, hcount]
    exact hevals
  obtain ⟨hrests, hx⟩ := hlast.followed_rests coords_replicate_zero
  obtain ⟨hparams, houtcome, hiterations⟩ := hlast.finish_eq .xConverged hx
  have hlater := s.followed_iterations _ hr
  rw [opening_iterations] at hlater hiterations
  refine ⟨_, .xConverged, ?_, rfl, ?_, houtcome, by omega⟩
  · rw [s.runFor_of_accepted (k + 1) hcontinues hr]
    exact s.runFor_of_finished k hlastContinues hrests
  · rw [hparams, ← hplace]
    apply coords_injective
    rw [coords_add, coords_replicate_zero, add_zero]

theorem linear_start (hc : s.config.Solves p) (ha : a.Regular s.config.scaleFloor)
    (b : Vector ℝ n) (x : Vector ℝ p) (state : σ) :
    (s.opening (.start s.config ⟨x, a.misfit b x, a⟩ state)).Linear a b ∧
      (s.opening (.start s.config ⟨x, a.misfit b x, a⟩ state)).run.search.iterate.x₀ = x ∧
      (s.opening (.start s.config ⟨x, a.misfit b x, a⟩ state)).run.search.iterate.radius =
        s.config.initialTrustRadius := by
  obtain ⟨warnings, hopening⟩ :=
    s.opening_first (r := .start s.config ⟨x, a.misfit b x, a⟩ state) rfl
  have hscale : s.config.updateScale a none true (s.config.scaleMode.initial p) = a.columnNorms :=
    Config.updateScale_eq hc.toLevels ha.columns (.inl rfl)
  have hradius : 0 < s.config.initialTrustRadius :=
    Config.pos_of_validate hc.valid (f := .initialTrustRadius) (by decide)
  refine ⟨⟨?_, ?_, ?_, rfl, ?_, ?_, ?_, s.opening_radius hradius, s.steady_opening (.inr rfl)⟩,
    ?_, ?_⟩ <;> rw [hopening]
  · exact .inr rfl
  · rfl
  · rfl
  · rfl
  · exact hscale
  · rfl
  · rfl
  · rfl

end Setup

section

variable {P : Problem ℝ σ p} {a : Dense ℝ n p} {b : Vector ℝ n} {x v : Vector ℝ p}
  {c : Config ℝ} {state : σ}

theorem fit_solves (hc : c.Solves p) (hp : 0 < p) (hP : P.Linear a b)
    (ha : a.Regular c.scaleFloor) (hx : ∀ i : Fin p, Scalar.isFinite x[i] = true)
    (hf : Scalar.isFinite (objective (a.misfit b x)) = true) (hv : a.GaussNewton b x v)
    (hlength : Geometry.norm (timesEach v a.columnNorms) ≤ c.initialTrustRadius) :
    ∃ report, (fit P x none none c state).1 = .ok report ∧ report.params = x + v ∧
      report.iterations ≤ 2 ∧ report.outcome.allowsCovariance = true := by
  have hbegun : Begun P x none none c state ⟨P, none, c⟩ (.start c ⟨x, a.misfit b x, a⟩
      (P.evaluate x .jacobian state).2) :=
    ⟨rfl, rfl, checkInput_of_validate hp.ne' hc.valid hx, _, _, _,
      Prod.ext (hP.jacobian x state) rfl, firstPoint_toArray ha.le hf ha.finite, rfl⟩
  obtain ⟨hlinear, hplace, hradius⟩ := Setup.linear_start (s := ⟨P, none, c⟩) hc ha b x
    (P.evaluate x .jacobian state).2
  have hl : Setup.Leads ⟨P, none, c⟩ (Setup.opening ⟨P, none, c⟩ (.start c ⟨x, a.misfit b x, a⟩
      (P.evaluate x .jacobian state).2)) a b v := by
    have hphi := (Config.ranges_of_validate hc.valid).2.1.2.2
    have hpos : 0 < c.initialTrustRadius :=
      Config.pos_of_validate hc.valid (f := .initialTrustRadius) (by decide)
    refine ⟨hP, rfl, hc, ha, hlinear, ?_, ?_, ?_⟩
    · rw [hplace]
      exact hv
    · rw [hradius]
      exact (sub_nonpos.mpr hlength).trans (mul_nonneg hphi hpos.le)
    · rw [hplace]
      exact hv.isFinite ha.posDef hf
  obtain ⟨k, hk⟩ := Nat.exists_eq_add_of_le' hc.maxIterations
  obtain ⟨r, o, hrun, ho, hparams, houtcome, hiterations⟩ := hl.run hlength hc.maxFunctionEvals k
  have hfit := hbegun.fit_eq
  rw [hk, hrun] at hfit
  rw [hplace] at hparams
  exact ⟨_, hfit, hparams, hiterations, houtcome.symm ▸ ho⟩

theorem Config.solves_default (p : Nat) (k : Option CovarianceRequest) :
    ({ Config.default with covariance := k } : Config ℝ).Solves p where
  tuner1 := by norm_num [default]
  tuner2 := by norm_num [default]
  tuner3 := by norm_num [default]
  singularTol := le_rfl
  adaptive := rfl
  scaleFloor := by norm_num [default]
  scaleDecay := by norm_num [default]
  valid := Config.validate_default p
  maxIterations := (by decide : 2 ≤ 150)
  maxFunctionEvals := (by decide : 2 < 200)

end

namespace Corner

noncomputable def offset : Vector ℝ 2 := #v[-(9 / 2), -(1 / 4)]

theorem matrix_jacobian : jacobian.matrix = !![5, -3; 0, 4] := by
  ext i j
  fin_cases i <;> fin_cases j <;> rfl

theorem misfit_eq (x : Vector ℝ 2) : jacobian.misfit offset x =
    #v[5 * coords x 0 - 3 * coords x 1 + 9 / 2, 4 * coords x 1 + 1 / 4] := by
  apply coords_injective
  rw [Dense.coords_misfit, matrix_jacobian, offset, coords_pair, coords_pair]
  funext i
  fin_cases i <;> simp [dotProduct, Fin.sum_univ_two, coords, sub_eq_add_neg]

theorem linear_problem : problem.Linear jacobian offset where
  residuals x state := by
    rw [misfit_eq]
    exact ⟨_, rfl⟩
  jacobian x state := by
    rw [misfit_eq]
    rfl
  goesOn _ _ _ := rfl

theorem columnNorms_eq : jacobian.columnNorms = #v[5, 5] := by
  have hentries : jacobian.columnNorms =
      #v[Geometry.norm #v[(5 : ℝ), 0], Geometry.norm #v[(-3 : ℝ), 4]] := rfl
  rw [hentries, norm_columns.1, norm_columns.2]

theorem regular_jacobian : jacobian.Regular (Config.default : Config ℝ).scaleFloor where
  le := le_rfl
  fullRank := by
    obtain ⟨h, hqr⟩ := pivotedQr_jacobian
    rw [hqr]
  columns j := by
    fin_cases j
    · exact (by norm_num [Config.default] : (Config.default : Config ℝ).scaleFloor ≤ 5).trans_eq
        norm_columns.1.symm
    · exact (by norm_num [Config.default] : (Config.default : Config ℝ).scaleFloor ≤ 5).trans_eq
        norm_columns.2.symm
  clear := by
    rw [normalMatrix_jacobian, columnNorms_eq]
    exact clear_normal
  finite := all_jacobian

theorem misfit_start : jacobian.misfit offset #v[0, 0] = start.residuals := by
  apply coords_injective
  rw [Dense.coords_misfit, matrix_jacobian, offset, start, coords_pair, coords_pair, coords_pair]
  funext i
  fin_cases i <;> simp [-one_div]

theorem gaussNewton_start : jacobian.GaussNewton offset #v[0, 0] #v[-(15 / 16), -(1 / 16)] := by
  have hgradient : jacobian.transposeMulVec start.residuals = #v[45 / 2, -(25 / 2)] :=
    first_gradient
  rw [Dense.GaussNewton, misfit_start, hgradient, ← regular_jacobian.matrix_normalMatrix,
    normalMatrix_jacobian]
  exact normal_mulVec

end Corner

section

variable {P : Problem ℝ σ p} {a : Dense ℝ n p} {b : Vector ℝ n} {x v : Vector ℝ p}
  {k : Option CovarianceRequest} {state : σ}

/-- A linear problem is solved in two iterations at most, if the whole Gauss–Newton step from
the start is within the first radius. The start, the matrix and the first objective are checked
to be finite before anything else. -/
theorem fit_linear (hp : 0 < p) (hP : P.Linear a b)
    (ha : a.Regular (Config.default : Config ℝ).scaleFloor)
    (hx : ∀ i : Fin p, Scalar.isFinite x[i] = true)
    (hf : Scalar.isFinite (objective (a.misfit b x)) = true) (hv : a.GaussNewton b x v)
    (hlength : Geometry.norm (timesEach v a.columnNorms) ≤
      (Config.default : Config ℝ).initialTrustRadius) :
    ∃ report, (fit P x none none { Config.default with covariance := k } state).1 = .ok report ∧
      coords report.params = (a.matrixᵀ * a.matrix)⁻¹ *ᵥ (a.matrixᵀ *ᵥ coords b) ∧
      (∀ y, y ≠ report.params →
        objective (a.misfit b report.params) < objective (a.misfit b y)) ∧
      report.iterations ≤ 2 ∧
      (report.outcome = .xConverged ∨ report.outcome = .relFuncConverged ∨
        report.outcome = .bothConverged ∨ report.outcome = .absFuncConverged) := by
  obtain ⟨report, hreport, hparams, hiterations, houtcome⟩ :=
    fit_solves (Config.solves_default p k) hp hP ha hx hf hv hlength
  have hgradient : coords (a.transposeMulVec (a.misfit b report.params)) = 0 := by
    rw [hparams]
    exact hv.gradient_add
  exact ⟨report, hreport, Dense.eq_inv_mulVec_of_gradient ha.posDef hgradient,
    fun y hy => Dense.objective_lt_of_gradient ha.posDef hgradient hy, hiterations,
    Outcome.eq_of_allowsCovariance houtcome⟩

end

theorem fit_linear_corner :
    0 < 2 ∧ Corner.problem.Linear Corner.jacobian Corner.offset ∧
    Corner.jacobian.Regular (Config.default : Config ℝ).scaleFloor ∧
    Corner.jacobian.GaussNewton Corner.offset #v[0, 0] #v[-(15 / 16), -(1 / 16)] ∧
    ∃ report, (fit Corner.problem #v[0, 0] none none
        { Config.default with covariance := none } ()).1 = .ok report ∧
      coords report.params = (Corner.jacobian.matrixᵀ * Corner.jacobian.matrix)⁻¹ *ᵥ
        (Corner.jacobian.matrixᵀ *ᵥ coords Corner.offset) ∧
      (∀ y, y ≠ report.params → objective (Corner.jacobian.misfit Corner.offset report.params) <
        objective (Corner.jacobian.misfit Corner.offset y)) ∧
      report.iterations ≤ 2 ∧
      (report.outcome = .xConverged ∨ report.outcome = .relFuncConverged ∨
        report.outcome = .bothConverged ∨ report.outcome = .absFuncConverged) := by
  have hfinite : Scalar.isFinite
      (objective (Corner.jacobian.misfit Corner.offset #v[0, 0])) = true := by
    rw [Corner.misfit_start, Corner.objective_start]
    exact isFinite_of_le (by norm_num)
  have hlength : Geometry.norm (timesEach #v[-(15 / 16 : ℝ), -(1 / 16)]
      Corner.jacobian.columnNorms) ≤ (Config.default : Config ℝ).initialTrustRadius := by
    rw [Corner.columnNorms_eq]
    exact Corner.norm_step_le
  have hstart (i : Fin 2) : Scalar.isFinite (#v[(0 : ℝ), 0])[i] = true := by
    fin_cases i <;> exact Corner.isFinite_zero
  exact ⟨two_pos, Corner.linear_problem, Corner.regular_jacobian, Corner.gaussNewton_start,
    fit_linear two_pos Corner.linear_problem Corner.regular_jacobian hstart hfinite
      Corner.gaussNewton_start hlength⟩

end LeastSquares
