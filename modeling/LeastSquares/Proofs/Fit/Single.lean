import LeastSquares.Proofs.Assess.Course
import LeastSquares.Proofs.Checked
import LeastSquares.Proofs.Fit.Known
import LeastSquares.Proofs.Linear.Normal
import LeastSquares.Proofs.Secant
import LeastSquares.Proofs.TrustStep.Restarted

/-! Fits of one residual in one parameter, whose fresh steps can be told exactly. -/

namespace LeastSquares

open Matrix

theorem coords_single (a : ℝ) : coords #v[a] = fun _ => a := by
  funext i
  rw [Fin.fin_one_eq_zero i]
  rfl

theorem add_single (a b : ℝ) : #v[a] + #v[b] = #v[a + b] := by
  apply coords_injective
  rw [coords_add, coords_single, coords_single, coords_single]
  rfl

theorem sub_single (a b : ℝ) : #v[a] - #v[b] = #v[a - b] := by
  apply coords_injective
  rw [coords_sub, coords_single, coords_single, coords_single]
  rfl

theorem dot_single (a b : ℝ) : dot #v[a] #v[b] = a * b := by
  rw [dot_eq, coords_single, coords_single, dotProduct, Fin.sum_univ_one]

theorem objective_single (a : ℝ) : objective #v[a] = 1 / 2 * (a * a) := by
  rw [objective, normSq, dot_single]

theorem relativeStep_single (x x₀ : ℝ) :
    relativeStep #v[1] #v[x] #v[x₀] = |x - x₀| / (|x| + |x₀|) := by
  have hchange : 0 ≤ |x - x₀| := abs_nonneg _
  have hsize : 0 ≤ |x| + |x₀| := add_nonneg (abs_nonneg _) (abs_nonneg _)
  have heq : relativeStep #v[(1 : ℝ)] #v[x] #v[x₀] =
      if 0 < max 0 (1 * (|x| + |x₀|)) then
        max 0 |1 * (x - x₀)| / max 0 (1 * (|x| + |x₀|)) else 0 := rfl
  rw [heq, one_mul, one_mul, max_eq_right hchange, max_eq_right hsize]
  split
  · rfl
  · next hzero => rw [le_antisymm (not_lt.mp hzero) hsize, div_zero]

namespace Symmetric

variable {h : Symmetric ℝ 1} {a : ℝ}

theorem mulVec_single (h : Symmetric ℝ 1) (v : Fin 1 → ℝ) :
    h.matrix *ᵥ v = fun _ => h.get 0 0 * v 0 := by
  funext i
  rw [Fin.fin_one_eq_zero i]
  exact Fin.sum_univ_one fun j => h.get 0 j * v j

theorem dotProduct_single (h : Symmetric ℝ 1) (v : Fin 1 → ℝ) :
    v ⬝ᵥ h.matrix *ᵥ v = h.get 0 0 * (v ⬝ᵥ v) := by
  rw [mulVec_single, dotProduct, dotProduct, Fin.sum_univ_one, Fin.sum_univ_one]
  ring

theorem scaled_single (h : Symmetric ℝ 1) : (h.diagonallyScaled #v[1]).get 0 0 = h.get 0 0 := by
  rw [← matrix_apply, matrix_diagonallyScaled]
  simp

theorem posDef_single (ha : 0 < h.get 0 0) : h.matrix.PosDef :=
  posDef_of_convex ha fun v => (h.dotProduct_single v).ge

theorem clear_single (ha : 0 < h.get 0 0) : h.Clear := by
  have hmax : h.maxAbs ≤ h.get 0 0 := by
    apply maxAbs_le ha.le
    intro i j
    rw [Fin.fin_one_eq_zero i, Fin.fin_one_eq_zero j, abs_of_pos ha]
  have hfactor : (0 : ℝ) ≤ singularFactor := mul_nonneg (by norm_num) epsilon_pos.le
  have hless : singularFactor * h.get 0 0 < h.get 0 0 :=
    mul_lt_of_lt_one_left ha (singularFactor_lt.trans (by norm_num))
  exact clear_of_convex one_pos ha (fun v => (h.dotProduct_single v).ge)
    ((mul_le_mul_of_nonneg_left hmax hfactor).trans_lt hless)

end Symmetric

/-- The whole Newton step of `g s + a s² / 2`. -/
noncomputable def Trial.single (g a : ℝ) : Trial ℝ 1 where
  step := #v[-(g / a)]
  length := |g / a|
  slope := -(g * (g / a))
  reduction := 1 / 2 * (g * (g / a))
  newtonReduction := 1 / 2 * (g * (g / a))
  parameter := 0
  newtonLength := |g / a|

theorem trustStep_single {c : Config ℝ} {h : Symmetric ℝ 1} {g radius : ℝ} {m : StepMemory ℝ 1}
    (hm : m.isFresh = true) (ha : 0 < h.get 0 0) (hphi : 0 ≤ c.phiMax)
    (hshort : |g / h.get 0 0| ≤ radius) :
    (trustStep c h #v[g] #v[1] radius m).1 = .single g (h.get 0 0) := by
  have hradius : 0 ≤ radius := (abs_nonneg _).trans hshort
  have hclear : (h.diagonallyScaled #v[1]).Clear := by
    apply Symmetric.clear_single
    rw [h.scaled_single]
    exact ha
  have hequation : h.matrix *ᵥ coords #v[-(g / h.get 0 0)] = -coords #v[g] := by
    rw [Symmetric.mulVec_single, coords_single, coords_single]
    funext
    change h.get 0 0 * -(g / h.get 0 0) = -g
    field_simp
  have hlength : Geometry.norm (timesEach #v[-(g / h.get 0 0)] #v[1]) = |g / h.get 0 0| := by
    have htimes : timesEach #v[-(g / h.get 0 0)] #v[1] = #v[-(g / h.get 0 0)] := by
      apply coords_injective
      rw [coords_timesEach, coords_one, mul_one]
    rw [htimes, norm_single, abs_neg]
  have hwhole := trustStep_whole one_scale_pos hm (Symmetric.posDef_single ha) hclear hequation (by
    rw [hlength]
    linarith [mul_nonneg hphi hradius] : _ ≤ c.phiMax * radius)
  obtain ⟨hstep, hlen, hslope, hreduction, hnewton, hparameter, hnewtonLength⟩ := hwhole
  have hform : coords #v[-(g / h.get 0 0)] ⬝ᵥ h.matrix *ᵥ coords #v[-(g / h.get 0 0)] =
      g * (g / h.get 0 0) := by
    rw [hequation, coords_single, coords_single, dotProduct, Fin.sum_univ_one]
    change -(g / h.get 0 0) * -g = _
    ring
  rw [hform] at hreduction
  rw [hlength] at hlen
  rw [hlen] at hnewtonLength
  rw [hreduction] at hslope hnewton
  generalize (trustStep c h #v[g] #v[1] radius m).1 = t at *
  obtain ⟨step, length, slope, reduction, newtonReduction, parameter, newtonLength⟩ := t
  dsimp only at *
  subst hstep hlen hslope hreduction hnewton hparameter hnewtonLength
  unfold Trial.single
  congr 1
  ring

def Dense.single (a : ℝ) : Dense ℝ 1 1 := ⟨#v[#v[a]]⟩

namespace Dense

theorem transposeMulVec_single (a b : ℝ) : (single a).transposeMulVec #v[b] = #v[a * b] := by
  rw [← dot_single]
  simp [single, transposeMulVec]

theorem sub_single (a b : ℝ) : (single a).sub (single b) = single (a - b) := by
  simp [single, sub, LeastSquares.sub_single]

theorem obstacle_column {m : Nat} {c : Vector ℝ m} (hc : 1 ≤ Geometry.norm c) :
    ((Sweep.start ⟨#v[c]⟩).pivot 0).obstacle (⟨#v[c]⟩ : Dense ℝ m 1).longest 0 = none := by
  have hlongest : (⟨#v[c]⟩ : Dense ℝ m 1).longest = Geometry.norm c := max_eq_right (norm_nonneg c)
  have htail : ((Sweep.start ⟨#v[c]⟩).pivot 0).tailNorm 0 = Geometry.norm c := by
    have hdrop : (c.drop 0 : Vector ℝ m) = c := by
      apply Vector.ext
      intro i hi
      simp
    exact congrArg Geometry.norm hdrop
  have htolerance := mul_le_mul_of_nonneg_right rankTolerance_le (norm_nonneg c)
  have hlarge : ¬((Geometry.norm c == 0) = true ∨
      Geometry.norm c ≤ rankTolerance * Geometry.norm c) := by
    rw [not_or, beq_iff]
    constructor <;> linarith
  unfold Sweep.obstacle
  dsimp only
  rw [htail, hlongest, if_neg hlarge, if_neg (not_lt.mpr (sqrtTiny_lt_one.le.trans hc))]

theorem fullRank_column {m : Nat} {a : Dense ℝ m 1}
    (ha : 1 ≤ Geometry.norm a.columns[(0 : Fin 1)]) :
    (a.pivotedQr 0).status = .fullRank := by
  obtain ⟨c, rfl⟩ : ∃ c, a = ⟨#v[c]⟩ := by
    refine ⟨a.columns[(0 : Fin 1)], ?_⟩
    obtain ⟨columns⟩ := a
    congr 1
    apply Vector.ext
    intro i hi
    obtain rfl := Nat.lt_one_iff.mp hi
    rfl
  have hends := PivotedQr.ends_pivotedQr (⟨#v[c]⟩ : Dense ℝ m 1) 0
  generalize (⟨#v[c]⟩ : Dense ℝ m 1).pivotedQr 0 = f at hends
  cases hends with
  | complete => rfl
  | @halted k w status hw hstatus =>
    have hk : (k : Nat) = 0 := by omega
    have hcol : col k = 0 := Fin.fin_one_eq_zero _
    obtain rfl : w = Sweep.start ⟨#v[c]⟩ := by
      generalize (k : Nat) = j at hw hk
      cases hw with
      | start => rfl
      | eliminate => omega
    rw [Sweep.chosen, if_pos (Nat.zero_le _), hcol, obstacle_column (c := c) ha] at hstatus
    cases hstatus

theorem normalMatrix_column {m : Nat} (hm : 0 < m) {a : Dense ℝ m 1}
    (ha : 1 ≤ Geometry.norm a.columns[(0 : Fin 1)]) :
    (a.pivotedQr 0).normalMatrix.get 0 0 =
      dot a.columns[(0 : Fin 1)] a.columns[(0 : Fin 1)] := by
  rw [← Symmetric.matrix_apply, PivotedQr.normalMatrix_eq hm (fullRank_column ha), dot_eq_sum]
  rfl

theorem normalMatrix_single {a : ℝ} (ha : 1 ≤ |a|) :
    ((single a).pivotedQr 0).normalMatrix.get 0 0 = a * a := by
  rw [normalMatrix_column one_pos ((norm_single a).symm ▸ ha)]
  exact dot_single a a

end Dense

theorem secantUpdate_single {step y : ℝ} (s : Symmetric ℝ 1) (yStar : ℝ) {cosineMin : ℝ}
    (hcosine : cosineMin < 1) (hne : step * y ≠ 0) :
    (secantUpdate s #v[step] #v[y] #v[yStar] cosineMin).matrix.get 0 0 = yStar / step := by
  have hdot : coords #v[step] ⬝ᵥ coords #v[y] = step * y := by rw [← dot_eq, dot_single]
  have hlarge : ¬|coords #v[step] ⬝ᵥ coords #v[y]| ≤
      cosineMin * Geometry.norm #v[step] * Geometry.norm #v[y] := by
    rw [hdot, norm_single, norm_single, mul_assoc, ← abs_mul]
    exact not_le.mpr (mul_lt_of_lt_one_left (abs_pos.mpr hne) hcosine)
  obtain ⟨-, hmatrix⟩ := secantUpdate_updated s #v[step] #v[y] #v[yStar] cosineMin hlarge
  have hsecant := congrArg (· *ᵥ coords #v[step]) hmatrix
  rw [add_mulVec, secantChange_mulVec_step _ (hdot.trans_ne hne), add_sub_cancel,
    Symmetric.mulVec_single] at hsecant
  rw [eq_div_iff (left_ne_zero_of_mul hne)]
  exact congrFun hsecant 0

theorem Run.learn_of_same {σ : Type} {n p : Nat} {c : Config ℝ} {r : Run ℝ σ n p}
    {a : Accepted ℝ n p} (g : Vector ℝ p)
    (hsame : r.modelHessian a.normal r.search.iterate.model.other = a.hessian)
    (htuner : c.tuner5 ≤ 1) (hincrease : 1 ≤ c.increaseFactor)
    (hv : a.verdict = .acceptByGradient) (hlength : 0 < a.length)
    (hfinite : c.increaseFactor * a.length ≤ 100) :
    ∃ radius, a.length ≤ radius ∧ learn c g r a = { r with
      secant := (secantUpdate r.secant (r.search.iterate.x - a.x) (g - a.gradient)
        ((r.base.jacobian.sub a.jacobian).transposeMulVec r.base.residuals) c.cosineMin).matrix
      search := { r.search with iterate := { r.search.iterate with radius } } } := by
  obtain ⟨factor, hone, hle, hfactor⟩ : ∃ factor, 1 ≤ factor ∧ factor ≤ c.increaseFactor ∧
      nextFactor c a g (gradientMisfit a.hessian (r.search.iterate.x - a.x) (g - a.gradient)
        a.d) = factor := by
    unfold nextFactor
    rw [if_pos hv]
    split
    · exact ⟨_, hincrease, le_rfl, rfl⟩
    · exact ⟨_, le_rfl, hincrease, rfl⟩
  have hlonger : a.length ≤ factor * a.length := le_mul_of_one_le_left hlength.le hone
  have hbounded : factor * a.length ≤ 100 :=
    (mul_le_mul_of_nonneg_right hle hlength.le).trans hfinite
  have hkept : 0 < factor * a.length ∧ Scalar.isFinite (factor * a.length) = true :=
    ⟨hlength.trans_le hlonger,
      isFinite_of_le (abs_le.mpr ⟨by linarith [hlength.trans_le hlonger], hbounded⟩)⟩
  have hbetter : ¬gradientMisfit a.hessian (r.search.iterate.x - a.x) (g - a.gradient) a.d <
      c.tuner5 * gradientMisfit a.hessian (r.search.iterate.x - a.x) (g - a.gradient) a.d :=
    not_lt.mpr (mul_le_of_le_one_left (norm_nonneg _) htuner)
  refine ⟨factor * a.length, hlonger, ?_⟩
  unfold learn
  dsimp only
  rw [hfactor, hsame, decide_eq_false hbetter, if_neg Bool.false_ne_true, if_pos hkept]
  rfl

theorem Run.opened_of_same {σ : Type} {n p : Nat} {c : Config ℝ} {r : Run ℝ σ n p}
    {a : Accepted ℝ n p} (g : Vector ℝ p) (hscale : c.scaleMode = .fixed none)
    (hsame : r.modelHessian a.normal r.search.iterate.model.other = a.hessian)
    (htuner : c.tuner5 ≤ 1) (hincrease : 1 ≤ c.increaseFactor)
    (hv : a.verdict = .acceptByGradient) (hlength : 0 < a.length)
    (hfinite : c.increaseFactor * a.length ≤ 100) :
    ∃ radius run, a.length ≤ radius ∧ ((learn c g r a).rescale c false).openIteration = run ∧
      run.memory.isFresh = true ∧ run.memoryModel = r.search.iterate.model ∧
      run.secant = (secantUpdate r.secant (r.search.iterate.x - a.x) (g - a.gradient)
        ((r.base.jacobian.sub a.jacobian).transposeMulVec r.base.residuals) c.cosineMin).matrix ∧
      run.search = { r.search with
        iterate := { r.search.iterate with
          x₀ := r.search.iterate.x
          f₀ := r.search.iterate.f
          oversized := false
          radius
          stageLimit := 2 }
        record := { r.search.record with bestModel := r.search.iterate.model } } := by
  obtain ⟨radius, hlonger, hlearn⟩ :=
    Run.learn_of_same g hsame htuner hincrease hv hlength hfinite
  have hd (second : Option (Symmetric ℝ p)) (d : Vector ℝ p) :
      c.updateScale r.base.jacobian second false d = d := by
    unfold Config.updateScale
    rw [hscale]
  rw [hlearn]
  refine ⟨radius, _, hlonger, rfl, rfl, rfl, rfl, ?_⟩
  unfold openIteration rescale Search.beginIteration
  dsimp only
  rw [hd]
  rfl

theorem Setup.opening_unscaled {σ : Type} {n p : Nat} (s : Setup ℝ σ p)
    (hscale : s.config.scaleMode = .fixed none) (l : Linearized ℝ n p) (state : σ) :
    ∃ warnings, s.opening (.start s.config l state) =
      ⟨l.gradient, (l.jacobian.pivotedQr 0).normalMatrix, { Run.start s.config l state with
        iterations := 1
        search := {
          verdict := .accept
          iterate := ⟨l.x, l.x, objective l.residuals, objective l.residuals, .replicate p 1,
            s.config.initialTrustRadius, .gaussNewton, 1, false⟩
          trial := .zero p
          record := .new p }
        memory := (Run.start s.config l state).memory.reset
        memoryModel := .gaussNewton
        trials := []
        previous := none
        warnings }⟩ := by
  obtain ⟨warnings, hrun⟩ := s.opening_first (r := .start s.config l state) rfl
  refine ⟨warnings, ?_⟩
  have hd : s.config.updateScale l.jacobian none true (s.config.scaleMode.initial p) =
      .replicate p 1 := by
    unfold Config.updateScale
    rw [hscale]
    rfl
  have hopening : s.opening (.start s.config l state) =
      ⟨l.gradient, (l.jacobian.pivotedQr 0).normalMatrix,
        (s.opening (.start s.config l state)).run⟩ := rfl
  rw [hopening, hrun, ← hd]
  rfl

/-- One residual in one parameter, with a derivative that need not be its own. -/
noncomputable def Problem.single (r j : ℝ → ℝ) : Problem ℝ Unit 1 where
  evaluate x _ state := (.ok ⟨#[r x[(0 : Fin 1)]], some ⟨1, 1, .single (j x[(0 : Fin 1)])⟩⟩, state)

namespace Single

variable (r j : ℝ → ℝ) (c : Config ℝ) {x : ℝ}

noncomputable def setup : Setup ℝ Unit 1 := ⟨.single r j, none, c⟩

noncomputable def point (x : ℝ) : Linearized ℝ 1 1 := ⟨#v[x], #v[r x], .single (j x)⟩

noncomputable def start (x : ℝ) : Run ℝ Unit 1 1 := .start c (point r j x) ()

theorem gradient_point (x : ℝ) : (point r j x).gradient = #v[j x * r x] :=
  Dense.transposeMulVec_single (j x) (r x)

theorem answers : (Problem.single r j).Answers fun x => #[r x[(0 : Fin 1)]] := by
  intro x mode state e he
  cases he
  rfl

section

variable {r j}

theorem finite_jacobian (hj : |j x| ≤ 10) : (Dense.single (j x)).all Scalar.isFinite = true := by
  have hentry : (Dense.single (j x)).all Scalar.isFinite = Scalar.isFinite (j x) := by
    simp [Dense.single, Dense.all]
  rw [hentry]
  exact isFinite_of_le (by linarith)

variable (hr : |r x| ≤ 10)
include hr

theorem finite_residuals : (#v[r x]).all Scalar.isFinite = true := by
  have hentry : (#v[r x]).all Scalar.isFinite = Scalar.isFinite (r x) := by simp
  rw [hentry]
  exact isFinite_of_le (by linarith)

theorem finite_objective : Scalar.isFinite (objective #v[r x]) = true := by
  have hsquare : r x * r x ≤ 100 := by
    rw [← abs_mul_abs_self]
    nlinarith [abs_nonneg (r x)]
  have hpos := mul_self_nonneg (r x)
  rw [objective_single]
  exact isFinite_of_le (abs_le.mpr ⟨by linarith, by linarith⟩)

theorem residuals_eq (a : Account Unit) : (Problem.single r j).countedResiduals 1 #v[x] a =
    (.ok #v[r x], { a with functionEvals := a.functionEvals + 1 }) := by
  have hanswer := Problem.countedResiduals_of_evaluate (P := .single r j) (x := #v[x])
    (v := #v[r x]) (a := a) rfl
  rw [if_pos (finite_residuals hr)] at hanswer
  exact Prod.ext hanswer rfl

variable (hj : |j x| ≤ 10)
include hj

theorem linearization_eq (a : Account Unit) :
    (Problem.single r j).countedLinearization 1 #v[x] a =
      (.ok (#v[r x], .single (j x)), { a with gradientEvals := a.gradientEvals + 1 }) := by
  have hanswer := Problem.countedLinearization_of_evaluate (P := .single r j) (x := #v[x])
    (v := #v[r x]) (j := .single (j x)) (a := a) rfl
  rw [if_pos (finite_residuals hr), if_pos (finite_jacobian hj)] at hanswer
  exact Prod.ext hanswer rfl

variable {c} (hc : c.validate 1 = .ok ()) (hx : |x| ≤ 100)
include hc hx

theorem begun : Begun (.single r j) #v[x] none none c () (setup r j c) (start r j c x) := by
  have hinput : checkInput #v[x] none none c = .ok none := by
    refine checkInput_of_validate one_ne_zero hc fun i => ?_
    rw [Fin.fin_one_eq_zero i]
    exact isFinite_of_le hx
  exact ⟨rfl, rfl, hinput, _, point r j x, (), rfl,
    firstPoint_toArray le_rfl (finite_objective hr) (finite_jacobian hj), rfl⟩

end

/-- The defaults, but for a scale of one, a false convergence that is easily met, and no
covariance. -/
noncomputable def config : Config ℝ :=
  { (Config.default : Config ℝ) with
    falseConvergeTol := 1 / 5
    scaleMode := .fixed none
    covariance := none }

theorem validate_config : config.validate 1 = .ok () := by
  refine Config.validate_of_fields (Config.fields_of_mem fun f => ?_) ?_ rfl rfl
  · have hdefault := Config.default_value_mem f
    cases f with
    | falseConvergeTol =>
      change (1 / 5 : ℝ) ∈ Set.Ioc 0 100
      norm_num
    | _ => exact hdefault
  · have hranges := Config.ranges_of_validate (Config.validate_default 1)
    exact hranges

theorem not_lt_absFuncTol {f : ℝ} (hf : 1 / 100 ≤ |f|) : ¬|f| < config.absFuncTol := by
  have hpos : (0 : ℝ) < Scalar.epsilon := epsilon_pos
  have hepsilon := epsilon_le
  rw [not_lt]
  change Scalar.epsilon * Scalar.epsilon ≤ |f|
  nlinarith

theorem silent_config {f₀ f change : ℝ} {t : Trial ℝ 1} (hf : 1 / 100 ≤ |f|)
    (hlength : t.length ≤ 100) (hreduction : 1 / 10000000000 * |f₀| ≤ t.reduction)
    (hnewton : 1 / 10000000000 * |f₀| < t.newtonReduction) (hchange : 1 / 10 < change) :
    config.Silent f₀ f t change := by
  have hepsilon := epsilon_le
  refine ⟨not_lt_absFuncTol hf, hlength, hreduction, fun h => absurd h.2 (not_le.mpr hnewton),
    not_le.mpr ?_⟩
  change √Scalar.epsilon < change
  rw [Real.sqrt_lt' (by linarith)]
  nlinarith

/-- A trial that is computed afresh from the parabola `g s + a s² / 2` at `x₀`, in a scale of
one, and leads to `x`. -/
structure Fresh {σ : Type} {n : Nat} (h : Head ℝ σ n 1) (x₀ g a x : ℝ) : Prop where
  place : h.run.search.iterate.x₀ = #v[x₀]
  gradient : h.gradient = #v[g]
  hessian : (h.run.hessian h.normal).get 0 0 = a
  d : h.run.search.iterate.d = #v[1]
  fresh : (Setup.remembered h.run).isFresh = true
  convex : 0 < a
  short : |g / a| ≤ h.run.search.iterate.radius
  target : x₀ + -(g / a) = x

section

variable {σ : Type} {n : Nat} {s : Setup ℝ σ 1} {h : Head ℝ σ n 1} {x₀ g a : ℝ}

theorem Fresh.clamped (hh : Fresh h x₀ g a x) (hbounds : s.bounds = none)
    (hphi : 0 ≤ s.config.phiMax) : s.clamped h = .single g a := by
  have hclamped : s.clamped h = (s.unclamped h).1 := by
    unfold Setup.clamped
    rw [hbounds]
    rfl
  rw [hclamped]
  unfold Setup.unclamped
  have hconvex := hh.convex
  rw [← hh.hessian] at hconvex ⊢
  rw [hh.gradient, hh.d]
  refine trustStep_single hh.fresh hconvex hphi ?_
  rw [hh.hessian]
  exact hh.short

theorem Fresh.target_eq (hh : Fresh h x₀ g a x) (hbounds : s.bounds = none)
    (hphi : 0 ≤ s.config.phiMax) : s.target h = #v[x] := by
  rw [Setup.target, hh.clamped hbounds hphi, hh.place, ← hh.target]
  exact add_single _ _

end

section Fresh

variable {r j} {c} {h : Head ℝ Unit 1 1} {x₀ g a : ℝ} (hh : Fresh h x₀ g a x)
include hh

theorem Fresh.found (hphi : 0 ≤ c.phiMax) (hr : |r x| ≤ 10) :
    (setup r j c).found h = some #v[r x] := by
  unfold Setup.found Setup.answer
  rw [hh.target_eq rfl hphi]
  have hanswer : (setup r j c).problem.countedResiduals 1 #v[x] h.run.account = _ :=
    residuals_eq hr h.run.account
  rw [hanswer]
  exact if_pos (finite_objective hr)

theorem Fresh.scored (hphi : 0 ≤ c.phiMax) (hr : |r x| ≤ 10) :
    (setup r j c).scored h = { h.run.search with
      trial := .single g a
      iterate := { h.run.search.iterate with
        x := #v[x]
        f := 1 / 2 * (r x * r x)
        oversized := false } } := by
  rw [Setup.scored_eq, Setup.value, hh.found hphi hr, hh.target_eq rfl hphi,
    hh.clamped rfl hphi, ← objective_single]
  rfl

end Fresh

theorem fresh_setModel {normal : Symmetric ℝ 1} {run : Run ℝ Unit 1 1} {m : Model}
    {v : Verdict} {i : Iterate ℝ 1} {t : Trial ℝ 1} {record : Record ℝ 1} {x₀ g a : ℝ}
    (hsearch : run.search = ⟨v, i, t, record⟩) (hmemory : run.memoryModel ≠ m)
    (hplace : i.x₀ = #v[x₀]) (hd : i.d = #v[1]) (hhessian : (run.modelHessian normal m).get 0 0 = a)
    (ha : 0 < a) (hshort : |g / a| ≤ i.radius) (htarget : x₀ + -(g / a) = x) :
    Fresh ⟨#v[g], normal, run.setModel m⟩ x₀ g a x := by
  have hfresh : Setup.remembered (run.setModel m) = run.memory.reset := by
    unfold Setup.remembered
    exact if_pos hmemory.symm
  have hiterate : (run.setModel m).search.iterate = { i with model := m } := by
    unfold Run.setModel
    rw [hsearch]
  refine ⟨?_, rfl, hhessian, ?_, ?_, ha, ?_, htarget⟩
  · rw [hiterate, hplace]
  · rw [hiterate, hd]
  · rw [hfresh]
    rfl
  · rw [hiterate]
    exact hshort

variable {r j} {c} in
theorem found_eq (h : Head ℝ Unit 1 1) (hr : ∀ x, |r x| ≤ 10) :
    ∃ y, (setup r j c).found h = some #v[r y] := by
  obtain ⟨y, hy⟩ : ∃ y, (setup r j c).target h = #v[y] := by
    refine ⟨((setup r j c).target h)[0], ?_⟩
    apply Vector.ext
    intro i hi
    obtain rfl := Nat.lt_one_iff.mp hi
    rfl
  have hanswer : (setup r j c).problem.countedResiduals 1 #v[y] h.run.account = _ :=
    residuals_eq (hr y) h.run.account
  refine ⟨y, ?_⟩
  unfold Setup.found Setup.answer
  rw [hy, hanswer]
  exact if_pos (finite_objective (hr y))

variable {r j} {c} in
theorem continues {x₀ : ℝ} {h : Head ℝ Unit 1 1} {l : List (Head ℝ Unit 1 1)}
    (hl : (setup r j c).Passes (start r j c x₀) (h :: l))
    (hleft : l.length + 1 < c.maxFunctionEvals) : (setup r j c).Continues h :=
  (setup r j c).continues_of_passes hl rfl hleft

section Opening

variable (hscale : c.scaleMode = .fixed none)
include hscale

theorem opening_start (x : ℝ) : ∃ warnings, (setup r j c).opening (start r j c x) =
    ⟨#v[j x * r x], ((Dense.single (j x)).pivotedQr 0).normalMatrix, { start r j c x with
      iterations := 1
      search := {
        verdict := .accept
        iterate := ⟨#v[x], #v[x], 1 / 2 * (r x * r x), 1 / 2 * (r x * r x), #v[1],
          c.initialTrustRadius, .gaussNewton, 1, false⟩
        trial := .zero 1
        record := .new 1 }
      memory := (start r j c x).memory.reset
      memoryModel := .gaussNewton
      trials := []
      previous := none
      warnings }⟩ := by
  obtain ⟨warnings, hopening⟩ := (setup r j c).opening_unscaled hscale (point r j x) ()
  refine ⟨warnings, ?_⟩
  rw [← gradient_point, ← objective_single]
  exact hopening

variable {r j} {c} {y : ℝ} (hj : 1 ≤ |j x|)
  (hshort : |j x * r x / (j x * j x)| ≤ c.initialTrustRadius)
  (htarget : x + -(j x * r x / (j x * j x)) = y)
include hj hshort htarget

theorem fresh_opening :
    Fresh ((setup r j c).opening (start r j c x)) x (j x * r x) (j x * j x) y := by
  obtain ⟨warnings, hopening⟩ := opening_start r j c hscale x
  have hne : j x ≠ 0 := abs_pos.mp (one_pos.trans_le hj)
  rw [hopening]
  exact ⟨rfl, rfl, Dense.normalMatrix_single hj, rfl, rfl, mul_self_pos.mpr hne, hshort, htarget⟩

theorem scored_opening (hphi : 0 ≤ c.phiMax) (hr : |r y| ≤ 10) :
    (setup r j c).scored ((setup r j c).opening (start r j c x)) = {
      verdict := .accept
      iterate := ⟨#v[y], #v[x], 1 / 2 * (r y * r y), 1 / 2 * (r x * r x), #v[1],
        c.initialTrustRadius, .gaussNewton, 1, false⟩
      trial := .single (j x * r x) (j x * j x)
      record := .new 1 } := by
  rw [(fresh_opening hscale hj hshort htarget).scored hphi hr]
  obtain ⟨warnings, hopening⟩ := opening_start r j c hscale x
  rw [hopening]

end Opening

section Second

variable {r j} {c} {x₁ g a f₀ f₁ radius : ℝ} {record : Record ℝ 1}
  (hscale : c.scaleMode = .fixed none)
  (hkept : ((setup r j c).judged ((setup r j c).opening (start r j c x))).search = {
    verdict := .acceptByGradient
    iterate := ⟨#v[x₁], #v[x], f₁, f₀, #v[1], radius, .gaussNewton, 1, false⟩
    trial := .single g a
    record })
include hscale hkept

theorem accepted_opening : (setup r j c).accepted ((setup r j c).opening (start r j c x)) = {
    x := #v[x]
    gradient := #v[j x * r x]
    jacobian := .single (j x)
    d := #v[1]
    normal := ((Dense.single (j x)).pivotedQr 0).normalMatrix
    hessian := ((Dense.single (j x)).pivotedQr 0).normalMatrix
    verdict := .acceptByGradient
    radiusFactor := record.radiusFactor
    length := |g / a| } := by
  obtain ⟨warnings, hopening⟩ := opening_start r j c hscale x
  unfold Setup.accepted
  rw [Setup.tried_hessian, Setup.judged_base, hkept, hopening]
  rfl

variable (hr : |r x₁| ≤ 10) (hj : |j x₁| ≤ 10)
include hr hj

theorem followed_opening : ∃ r₁,
    (setup r j c).followed ((setup r j c).opening (start r j c x)) = (r₁, .accepted) ∧
    r₁.search = ((setup r j c).judged ((setup r j c).opening (start r j c x))).search ∧
    r₁.base = point r j x₁ ∧ r₁.secant = .zeros 1 ∧
    r₁.previous = some ((setup r j c).accepted ((setup r j c).opening (start r j c x))) := by
  obtain ⟨warnings, hopening⟩ := opening_start r j c hscale x
  have hlinear := linearization_eq (j := j) hr hj
    ((setup r j c).judged ((setup r j c).opening (start r j c x))).account
  obtain ⟨r₁, hfollowed⟩ := (setup r j c).followed_of_answered _ (by rw [hkept])
    (e := (#v[r x₁], .single (j x₁))) (by rw [hkept]; exact congrArg Prod.fst hlinear)
    fun _ _ _ => rfl
  obtain ⟨-, v, jacobian, b, state, hanswer, rfl⟩ := (setup r j c).followed_accepted _ hfollowed
  rw [hkept] at hanswer
  obtain ⟨rfl, rfl⟩ : #v[r x₁] = v ∧ Dense.single (j x₁) = jacobian :=
    Prod.mk.inj (Except.ok.inj (congrArg Prod.fst (hlinear.symm.trans hanswer)))
  refine ⟨_, hfollowed, rfl, ?_, ?_, rfl⟩
  · rw [hkept]
    rfl
  · change ((setup r j c).judged _).secant = _
    rw [Setup.judged_secant, hopening]
    rfl

theorem second (htuner : c.tuner5 ≤ 1) (hincrease : 1 ≤ c.increaseFactor)
    (hlength : 0 < |g / a|) (hfinite : c.increaseFactor * |g / a| ≤ 100) :
    ∃ r₁ run radius₁, (setup r j c).followed ((setup r j c).opening (start r j c x)) =
        (r₁, .accepted) ∧
      (setup r j c).opening r₁ =
        ⟨#v[j x₁ * r x₁], ((Dense.single (j x₁)).pivotedQr 0).normalMatrix, run⟩ ∧
      |g / a| ≤ radius₁ ∧ run.memory.isFresh = true ∧ run.memoryModel = .gaussNewton ∧
      run.secant = (secantUpdate (.zeros 1) #v[x₁ - x] #v[j x₁ * r x₁ - j x * r x]
        #v[(j x₁ - j x) * r x₁] c.cosineMin).matrix ∧
      run.search = {
        verdict := .acceptByGradient
        iterate := ⟨#v[x₁], #v[x₁], f₁, f₁, #v[1], radius₁, .gaussNewton, 2, false⟩
        trial := .single g a
        record := { record with bestModel := .gaussNewton } } := by
  obtain ⟨r₁, hfollowed, hsearch, hbase, hzeros, hprevious⟩ :=
    followed_opening hscale hkept hr hj
  obtain ⟨warnings, hnext⟩ := (setup r j c).opening_next hprevious
  have hleft := accepted_opening hscale hkept
  generalize (setup r j c).accepted ((setup r j c).opening (start r j c x)) = a₁ at hnext hleft
  rw [hkept] at hsearch
  have hgradient : r₁.base.gradient = #v[j x₁ * r x₁] := by rw [hbase, gradient_point]
  have hsame : r₁.modelHessian a₁.normal r₁.search.iterate.model.other = a₁.hessian := by
    rw [hsearch, hleft]
    change Symmetric.add _ r₁.secant = _
    rw [hzeros, Symmetric.add_zeros]
  obtain ⟨radius₁, run, hlonger, hrun, hfresh, hmodel, hsecant, hopened⟩ :=
    Run.opened_of_same (r := { r₁ with iterations := r₁.iterations + 1, warnings })
      r₁.base.gradient hscale hsame htuner hincrease (by rw [hleft])
      (by rw [hleft]; exact hlength) (by rw [hleft]; exact hfinite)
  rw [hleft] at hlonger hsecant
  refine ⟨r₁, run, radius₁, hfollowed, ?_, hlonger, hfresh, ?_, ?_, ?_⟩
  · have heq : (setup r j c).opening r₁ = ⟨r₁.base.gradient,
        (r₁.base.jacobian.pivotedQr 0).normalMatrix, ((setup r j c).opening r₁).run⟩ := rfl
    rw [heq, hgradient, hbase, hnext, ← hrun]
    rfl
  · rw [hmodel, hsearch]
  · rw [hsecant]
    dsimp only
    rw [hzeros, hsearch, hgradient, hbase, sub_single, sub_single]
    change (secantUpdate _ _ _ (((Dense.single (j x₁)).sub (.single (j x))).transposeMulVec
      #v[r x₁]) c.cosineMin).matrix = _
    rw [Dense.sub_single, Dense.transposeMulVec_single]
  · rw [hopened, hsearch]

end Second

end Single

/-! Its first step is kept, and leads to where it turns back. The step back is next to no gain, and
that of the other model goes half as far and is none. -/

namespace Zigzag

open Single

noncomputable def residual (b x : ℝ) : ℝ :=
  if x = 0 then -4 else if x = 4 then -2 else if x = 2 then b else -3

noncomputable def slope (x : ℝ) : ℝ := if x = 0 then 1 else -1

variable (b : ℝ)

noncomputable abbrev setup : Setup ℝ Unit 1 := Single.setup (residual b) slope config

noncomputable abbrev start : Run ℝ Unit 1 1 := Single.start (residual b) slope config 0

theorem residual_zero : residual b 0 = -4 := if_pos rfl

theorem residual_two : residual b 2 = b := by norm_num [residual]

theorem residual_three : residual b 3 = -3 := by norm_num [residual]

theorem residual_four : residual b 4 = -2 := by norm_num [residual]

theorem slope_zero : slope 0 = 1 := if_pos rfl

theorem slope_four : slope 4 = -1 := if_neg (by norm_num)

theorem begun : Begun (.single (residual b) slope) #v[0] none none config () (setup b)
    (start b) := by
  apply Single.begun
  · rw [residual_zero]
    norm_num
  · rw [slope_zero]
    norm_num
  · exact validate_config
  · norm_num

noncomputable def first : Head ℝ Unit 1 1 := (setup b).opening (start b)

theorem scored_first : (setup b).scored (first b) = {
    verdict := .accept
    iterate := ⟨#v[4], #v[0], 2, 8, #v[1], 100, .gaussNewton, 1, false⟩
    trial := .single (-4) 1
    record := .new 1 } := by
  have hscored := scored_opening (r := residual b) (j := slope) (c := config) (x := 0) (y := 4) rfl
    (by norm_num [slope_zero]) (by norm_num [residual_zero, slope_zero, config, Config.default])
    (by norm_num [residual_zero, slope_zero]) (by norm_num [config, Config.default])
    (by norm_num [residual_four])
  rw [first, hscored, residual_zero, residual_four, slope_zero]
  norm_num [config, Config.default]

theorem judged_first : ∃ record, ((setup b).judged (first b)).search = {
    verdict := .acceptByGradient
    iterate := ⟨#v[4], #v[0], 2, 8, #v[1], 100, .gaussNewton, 1, false⟩
    trial := .single (-4) 1
    record } := by
  have hchange : relativeStep #v[1] #v[4] #v[0] = (1 : ℝ) := by
    rw [relativeStep_single]
    norm_num
  have hsilent : config.Silent 8 2 (.single (-4) 1) (1 : ℝ) := by
    apply silent_config <;> norm_num [Trial.single, abs_of_pos]
  have hassess : ∃ record, assess config ((setup b).scored (first b)) = {
      verdict := .acceptByGradient
      iterate := ⟨#v[4], #v[0], 2, 8, #v[1], 100, .gaussNewton, 1, false⟩
      trial := .single (-4) 1
      record } := by
    rw [scored_first]
    refine ⟨_, Search.Begins.assess_kept rfl rfl ?_ ?_ ?_ (by rw [hchange]; exact hsilent)⟩
    all_goals norm_num [Trial.single, config, Config.default]
  obtain ⟨record, hassess⟩ := hassess
  exact ⟨record, (setup b).judged_of_assess hassess (by rintro ⟨⟩)⟩

noncomputable def second : Head ℝ Unit 1 1 := (setup b).opening ((setup b).followed (first b)).1

theorem opened_second : ∃ r₁ run radius record,
    (setup b).followed (first b) = (r₁, .accepted) ∧
    second b = ⟨#v[2], ((Dense.single (-1)).pivotedQr 0).normalMatrix, run⟩ ∧
    4 ≤ radius ∧ run.memory.isFresh = true ∧ run.memoryModel = .gaussNewton ∧
    run.secant.get 0 0 = 1 ∧
    run.search = {
      verdict := .acceptByGradient
      iterate := ⟨#v[4], #v[4], 2, 2, #v[1], radius, .gaussNewton, 2, false⟩
      trial := .single (-4) 1
      record } := by
  obtain ⟨record, hkept⟩ := judged_first b
  have hcosine : config.cosineMin < 1 := by
    have hepsilon : 100 * Scalar.epsilon < (1 : ℝ) := by
      change 100 * (2⁻¹ : ℝ) ^ 52 < 1
      norm_num
    exact max_lt (by norm_num) hepsilon
  obtain ⟨r₁, run, radius, hfollowed, hopening, hradius, hfresh, hmemory, hsecant, hsearch⟩ :=
    Single.second rfl hkept (by norm_num [residual_four]) (by norm_num [slope_four])
      (by norm_num [config, Config.default]) (by norm_num [config, Config.default]) (by norm_num)
      (by norm_num [config, Config.default])
  refine ⟨r₁, run, radius, _, hfollowed, ?_, ?_, hfresh, hmemory, ?_, hsearch⟩
  · rw [second, first, hfollowed, hopening, residual_four, slope_four]
    norm_num
  · norm_num at hradius
    exact hradius
  · rw [hsecant, residual_four, residual_zero, slope_four, slope_zero,
      secantUpdate_single _ _ hcosine (by norm_num)]
    norm_num

theorem scored_second (hb : |b| ≤ 10) : ∃ radius record, 4 ≤ radius ∧
    (setup b).scored (second b) = {
      verdict := .acceptByGradient
      iterate := ⟨#v[2], #v[4], 1 / 2 * (b * b), 2, #v[1], radius, .gaussNewton, 2, false⟩
      trial := .single 2 1
      record } := by
  obtain ⟨r₁, run, radius, record, -, hopening, hradius, hfresh, hmemory, -, hsearch⟩ :=
    opened_second b
  have hh : Fresh (second b) 4 2 1 2 := by
    rw [hopening]
    refine ⟨?_, rfl, ?_, ?_, ?_, one_pos, ?_, by norm_num⟩
    · rw [hsearch]
    · have hmodel : run.hessian ((Dense.single (-1)).pivotedQr 0).normalMatrix =
          ((Dense.single (-1)).pivotedQr 0).normalMatrix := by
        rw [Run.hessian, hsearch]
        rfl
      rw [hmodel, Dense.normalMatrix_single (by norm_num)]
      norm_num
    · rw [hsearch]
    · unfold Setup.remembered
      rw [hsearch, hmemory, if_neg (not_not.mpr rfl)]
      exact hfresh
    · rw [hsearch]
      norm_num
      linarith
  refine ⟨radius, record, hradius, ?_⟩
  rw [hh.scored (by norm_num [config, Config.default]) (by rw [residual_two]; exact hb),
    residual_two, hopening]
  dsimp only
  rw [hsearch]

theorem passes_second : (setup b).Passes (start b) [second b, first b] := by
  obtain ⟨r₁, _, _, _, hfollowed, -⟩ := opened_second b
  have hiterations : r₁.iterations = 1 := by
    rw [(setup b).followed_iterations _ hfollowed, first, Setup.opening_iterations]
    rfl
  have hcontinues := Single.continues (.opened : (setup b).Passes (start b) [first b])
    (by decide : 0 + 1 < 200)
  rw [second, hfollowed]
  refine .next .opened hcontinues hfollowed ?_
  rw [hiterations]
  exact (by decide : 1 < 150)

noncomputable def back (v : Verdict) (radius factor : ℝ) : Search ℝ 1 where
  verdict := v
  iterate := ⟨#v[2], #v[4], 1 / 2 * (b * b), 2, .replicate 1 1, radius, .gaussNewton, 2, false⟩
  trial := .single 2 1
  record := {
    stage := 1
    growth := 0
    restored := false
    switched := false
    resume := v
    bestModel := .gaussNewton
    bestF := 1 / 2 * (b * b)
    bestReduction := 2
    bestSlope := -4
    bestLength := 2
    bestStep := #v[-2]
    change := 1 / 3
    decrease := 2 - 1 / 2 * (b * b)
    radiusFactor := factor }

noncomputable def third : Head ℝ Unit 1 1 :=
  ⟨(second b).gradient, (second b).normal, ((setup b).followed (second b)).1⟩

variable {v : Verdict} {i : Iterate ℝ 1} {t : Trial ℝ 1} {record : Record ℝ 1}
  (hv : v = .otherOrShorter ∨ v = .otherOrAccept)
  (hjudged : ((setup b).judged (second b)).search = ⟨v, i, t, record⟩)
include hv hjudged

theorem followed_second : (setup b).followed (second b) =
    (((setup b).judged (second b)).setModel .augmented, .again) := by
  obtain ⟨_, run, _, _, -, hopening, -, -, -, -, hsearch⟩ := opened_second b
  have hmodel : (second b).run.search.iterate.model = .gaussNewton := by rw [hopening, hsearch]
  rw [(setup b).followed_of_other (by rw [hjudged]; exact hv), hmodel]
  rfl

theorem third_eq : third b =
    ⟨#v[2], (second b).normal, ((setup b).judged (second b)).setModel .augmented⟩ := by
  obtain ⟨_, run, _, _, -, hopening, -, -, -, -, -⟩ := opened_second b
  rw [third, followed_second b hv hjudged, hopening]

theorem passes_third : (setup b).Passes (start b) [third b, second b, first b] := by
  have hfollowed := followed_second b hv hjudged
  have hcontinues := Single.continues (passes_second b) (by decide : 1 + 1 < 200)
  rw [third, hfollowed]
  exact (passes_second b).again hcontinues hfollowed

variable (hplace : i.x₀ = #v[4]) (hd : i.d = #v[1]) (hradius : 4 ≤ i.radius)
include hplace hd hradius

theorem fresh_third : Fresh (third b) 4 2 2 3 := by
  obtain ⟨_, run, _, _, -, hopening, -, -, -, hsecant, hsearch⟩ := opened_second b
  have hmemory : ((setup b).judged (second b)).memoryModel ≠ .augmented := by
    obtain ⟨_, _, _, _, _, _, heq⟩ := (setup b).judged_run (second b)
    have hmodel : (second b).run.search.iterate.model = .gaussNewton := by rw [hopening, hsearch]
    rw [heq]
    dsimp only
    rw [hmodel]
    decide
  have hhessian : (((setup b).judged (second b)).modelHessian (second b).normal
      .augmented).get 0 0 = 2 := by
    change ((second b).normal.add ((setup b).judged (second b)).secant).get 0 0 = 2
    rw [Setup.judged_secant, ← Symmetric.matrix_apply, Symmetric.matrix_add, Matrix.add_apply,
      Symmetric.matrix_apply, Symmetric.matrix_apply, hopening,
      Dense.normalMatrix_single (by norm_num), hsecant]
    norm_num
  rw [third_eq b hv hjudged]
  refine fresh_setModel hjudged hmemory hplace hd hhessian two_pos ?_ (by norm_num)
  norm_num
  linarith

theorem scored_third : (setup b).scored (third b) = {
    verdict := v
    iterate := { i with x := #v[3], f := 9 / 2, model := .augmented, oversized := false }
    trial := .single 2 2
    record } := by
  have hh := fresh_third b hv hjudged hplace hd hradius
  rw [hh.scored (by norm_num [config, Config.default]) (by norm_num [residual_three]),
    residual_three, third_eq b hv hjudged]
  unfold Run.setModel
  dsimp only
  rw [hjudged]
  norm_num

end Zigzag

end LeastSquares
