import LeastSquares.Proofs.Assess.Foretold
import LeastSquares.Proofs.Checked
import LeastSquares.Proofs.Fit.Reported
import LeastSquares.Proofs.Fit.Stalled
import LeastSquares.Proofs.Linear.Minimizer
import LeastSquares.Proofs.TrustStep.Whole

namespace LeastSquares

open Matrix

variable {σ : Type} {n p : Nat}

/-- The residuals are `A x - b` with the Jacobian `A`, and nobody asks to stop. -/
structure Problem.Linear (P : Problem ℝ σ p) (a : Dense ℝ n p) (b : Vector ℝ n) : Prop where
  residuals : ∀ x state, ∃ j, (P.evaluate x .residuals state).1 = .ok ⟨(a.misfit b x).toArray, j⟩
  jacobian : ∀ x state, (P.evaluate x .jacobian state).1 =
    .ok ⟨(a.misfit b x).toArray, some ⟨n, p, a⟩⟩
  goesOn : ∀ k x state, (P.stopRequested k x state).1 = false

/-- Nothing keeps a fit with this matrix from taking a whole Gauss–Newton step but its length. -/
structure Dense.Regular (a : Dense ℝ n p) (floor : ℝ) : Prop where
  le : p ≤ n
  fullRank : (a.pivotedQr 0).status = .fullRank
  columns : ∀ j, floor ≤ Geometry.norm (a.column j)
  clear : ((a.pivotedQr 0).normalMatrix.diagonallyScaled a.columnNorms).Clear
  finite : a.all Scalar.isFinite = true

namespace Dense.Regular

variable {a : Dense ℝ n p} {floor : ℝ} (ha : a.Regular floor)
include ha

theorem matrix_normalMatrix : (a.pivotedQr 0).normalMatrix.matrix = a.matrixᵀ * a.matrix :=
  PivotedQr.normalMatrix_eq ha.le ha.fullRank

theorem posDef_normalMatrix : (a.pivotedQr 0).normalMatrix.matrix.PosDef :=
  PivotedQr.posDef_normalMatrix ha.le ha.fullRank

theorem posDef : (a.matrixᵀ * a.matrix).PosDef := by
  rw [← ha.matrix_normalMatrix]
  exact ha.posDef_normalMatrix

end Dense.Regular

/-- The scale of a linear problem is that of its columns from the first iteration on. -/
structure Config.Levels (c : Config ℝ) : Prop where
  adaptive : c.scaleMode = .adaptive
  scaleFloor : 0 < c.scaleFloor
  scaleDecay : c.scaleDecay ≤ 1

/-- Settings with which a whole Gauss–Newton step solves a linear problem. -/
structure Config.Solves (c : Config ℝ) (p : Nat) : Prop extends c.Believes, c.Levels where
  valid : c.validate p = .ok ()
  maxIterations : 2 ≤ c.maxIterations
  maxFunctionEvals : 2 < c.maxFunctionEvals

theorem isFinite_of_objective {v : Vector ℝ n} (hv : Scalar.isFinite (objective v) = true) :
    v.all Scalar.isFinite = true := by
  rw [Vector.all_eq_true]
  intro i hi
  have hhuge : (2 : ℝ) ≤ Scalar.huge :=
    (le_abs_self 2).trans (isFinite_iff.mp (isFinite_of_le (by norm_num)))
  have hterm : v[i] * v[i] ≤ coords v ⬝ᵥ coords v :=
    Finset.single_le_sum (f := fun i => coords v i * coords v i)
      (fun i _ => mul_self_nonneg (coords v i)) (Finset.mem_univ (⟨i, hi⟩ : Fin n))
  rw [isFinite_iff, abs_of_nonneg (objective_nonneg v), objective_eq] at hv
  rw [isFinite_iff]
  apply abs_le_of_sq_le_sq _ huge_pos.le
  nlinarith

namespace Config

variable {c : Config ℝ} {a : Dense ℝ n p}

theorem scaleEntry_eq {column : Vector ℝ n} {decay d : ℝ}
    (hfloor : c.scaleFloor ≤ Geometry.norm column) (hd : decay * d ≤ Geometry.norm column) :
    c.scaleEntry column 0 decay d = Geometry.norm column := by
  have hroot : Scalar.sqrt (Geometry.norm column * Geometry.norm column + 0) =
      Geometry.norm column := by
    rw [add_zero]
    exact Real.sqrt_mul_self (norm_nonneg _)
  unfold scaleEntry
  dsimp only
  rw [hroot, max_eq_left hd, if_neg (not_lt.mpr hfloor)]

theorem updateScale_eq (hc : c.Levels) (ha : ∀ j, c.scaleFloor ≤ Geometry.norm (a.column j))
    {first : Bool} {d : Vector ℝ p}
    (hd : first = true ∨ d = a.columnNorms) : c.updateScale a none first d = a.columnNorms := by
  unfold updateScale Dense.columnNorms
  rw [hc.adaptive]
  dsimp only
  congr 1
  funext j
  rw [dif_pos j.isLt]
  apply scaleEntry_eq (ha j)
  have hnorm := norm_nonneg (a.column j)
  rcases hd with rfl | rfl
  · simpa using hnorm
  · have hle := mul_le_mul_of_nonneg_right hc.scaleDecay hnorm
    rw [a.getElem_columnNorms]
    split
    · simpa using hnorm
    · linarith

end Config

namespace Run

theorem learn_of_misfit (c : Config ℝ) (g : Vector ℝ p) {r : Run ℝ σ n p} {a : Accepted ℝ n p}
    (h : gradientMisfit a.hessian (r.search.iterate.x - a.x) (g - a.gradient) a.d = 0) :
    ∃ radius secant, learn c g r a = { r with
      secant
      search := { r.search with iterate := { r.search.iterate with radius } } } := by
  have hother (h' : Symmetric ℝ p) : ¬gradientMisfit h' (r.search.iterate.x - a.x)
      (g - a.gradient) a.d < c.tuner5 * gradientMisfit a.hessian (r.search.iterate.x - a.x)
        (g - a.gradient) a.d := by
    rw [h, mul_zero]
    exact not_lt.mpr (norm_nonneg _)
  unfold learn
  dsimp only
  rw [decide_eq_false (hother _), if_neg Bool.false_ne_true]
  split <;> exact ⟨_, _, rfl⟩

end Run

/-- The first trial of an iteration on a linear problem, from a point that was evaluated. -/
structure Head.Linear (h : Head ℝ σ n p) (a : Dense ℝ n p) (b : Vector ℝ n) : Prop where
  first : h.run.search.verdict = .acceptByGradient ∨ h.run.search.verdict = .accept
  fresh : (Setup.remembered h.run).isFresh = true
  gradient : h.gradient = a.transposeMulVec (a.misfit b h.run.search.iterate.x₀)
  normal : h.normal = (a.pivotedQr 0).normalMatrix
  model : h.run.search.iterate.model = .gaussNewton
  d : h.run.search.iterate.d = a.columnNorms
  f₀ : h.run.search.iterate.f₀ = objective (a.misfit b h.run.search.iterate.x₀)
  radius : 0 < h.run.search.iterate.radius
  steady : h.Steady

namespace Setup

variable (s : Setup ℝ σ p) {h : Head ℝ σ n p} {a : Dense ℝ n p} {b : Vector ℝ n}
  {v : Vector ℝ p}

section

variable (hP : s.problem.Linear a b)
include hP

theorem linear_residuals {x : Vector ℝ p} (hx : Scalar.isFinite (objective (a.misfit b x)) = true)
    (account : Account σ) :
    (s.problem.countedResiduals n x account).1 = .ok (a.misfit b x) := by
  obtain ⟨j, heval⟩ := hP.residuals x account.state
  rw [Problem.countedResiduals_of_evaluate heval, if_pos (isFinite_of_objective hx)]

theorem linear_linearization {x : Vector ℝ p}
    (hx : Scalar.isFinite (objective (a.misfit b x)) = true) (ha : a.all Scalar.isFinite = true)
    (account : Account σ) :
    (s.problem.countedLinearization n x account).1 = .ok (a.misfit b x, a) := by
  rw [Problem.countedLinearization_of_evaluate (hP.jacobian x account.state),
    if_pos (isFinite_of_objective hx), if_pos ha]

end

/-- The whole Gauss–Newton step `v` is within the radius, and leads to a point that can be
evaluated. -/
structure Leads (h : Head ℝ σ n p) (a : Dense ℝ n p) (b : Vector ℝ n) (v : Vector ℝ p) :
    Prop where
  problem : s.problem.Linear a b
  bounds : s.bounds = none
  config : s.config.Solves p
  regular : a.Regular s.config.scaleFloor
  head : h.Linear a b
  step : a.GaussNewton b h.run.search.iterate.x₀ v
  short : Geometry.norm (timesEach v a.columnNorms) - h.run.search.iterate.radius ≤
    s.config.phiMax * h.run.search.iterate.radius
  finite : Scalar.isFinite (objective (a.misfit b (h.run.search.iterate.x₀ + v))) = true

namespace Leads

variable {s} (hl : s.Leads h a b v)
include hl

theorem whole : (s.clamped h).Whole h.normal a.columnNorms v := by
  have hclamped : s.clamped h = (s.unclamped h).1 := by
    unfold clamped
    rw [hl.bounds]
    rfl
  have hhessian : h.run.hessian h.normal = h.normal := by
    rw [Run.hessian, hl.head.model]
    rfl
  have hd (j : Fin p) : 0 < a.columnNorms[j] := by
    rw [a.getElem_columnNorms]
    exact hl.config.scaleFloor.trans_le (hl.regular.columns j)
  have hequation : h.normal.matrix *ᵥ coords v = -coords h.gradient := by
    rw [hl.head.normal, hl.regular.matrix_normalMatrix, hl.head.gradient]
    exact hl.step
  rw [hclamped]
  unfold unclamped
  rw [hhessian, hl.head.d]
  refine trustStep_whole hd hl.head.fresh ?_ ?_ hequation hl.short <;> rw [hl.head.normal]
  · exact hl.regular.posDef_normalMatrix
  · exact hl.regular.clear

theorem target_eq : s.target h = h.run.search.iterate.x₀ + v := by
  rw [target, hl.whole.step]

theorem found_eq : s.found h = some (a.misfit b (h.run.search.iterate.x₀ + v)) := by
  unfold found answer
  rw [hl.target_eq, s.linear_residuals hl.problem hl.finite]
  exact if_pos hl.finite

theorem scored_iterate : (s.scored h).iterate = { h.run.search.iterate with
    x := h.run.search.iterate.x₀ + v
    f := objective (a.misfit b (h.run.search.iterate.x₀ + v))
    oversized := false } := by
  rw [scored_eq, value, hl.found_eq, hl.target_eq]
  rfl

theorem judged_foretold
    (hlength : Geometry.norm (timesEach v a.columnNorms) ≤ s.config.initialTrustRadius)
    (hmoves : coords v ≠ 0) : (s.judged h).search.iterate = (s.scored h).iterate ∧
      ((s.judged h).search.verdict.Converges ∨
        (s.judged h).search.verdict = .acceptByGradient) := by
  have hwhole := hl.whole
  have hiterate := hl.scored_iterate
  have hnormal : h.normal.matrix = a.matrixᵀ * a.matrix := by
    rw [hl.head.normal, hl.regular.matrix_normalMatrix]
  have hgains : 0 < coords v ⬝ᵥ h.normal.matrix *ᵥ coords v := by
    rw [hl.head.normal]
    exact (Symmetric.posDef_iff _).mp hl.regular.posDef_normalMatrix _ hmoves
  have htrial : (s.scored h).trial = s.clamped h := by rw [scored_eq]
  have hforetold : (s.scored h).Foretold s.config := by
    refine ⟨?_, ?_, ?_, ?_, ?_, ?_⟩ <;> rw [htrial]
    · rw [hwhole.reduction]
      exact mul_pos (by norm_num) hgains
    · rw [hiterate, hwhole.reduction, hnormal]
      dsimp only
      rw [hl.head.f₀, hl.step.objective_add]
      ring
    · exact hwhole.slope
    · exact hwhole.newtonReduction
    · rw [hwhole.newtonLength, hwhole.length]
      exact norm_nonneg _
    · rw [hwhole.length]
      exact hlength
  obtain ⟨hkept, -, hverdict⟩ := hforetold.assess_eq hl.config.toBelieves
    (s.scored_steady hl.head.steady).ready (by rw [scored_eq]; exact hl.head.first)
    (by rw [hiterate])
  have hsearch : (s.judged h).search = assess s.config (s.scored h) := by
    apply s.judged_search
    intro hprobe
    rw [hprobe] at hverdict
    rcases hverdict with hverdict | hverdict
    · exact hverdict
    · cases hverdict
  rw [hsearch]
  exact ⟨hkept, hverdict⟩

theorem followed_rests (hrests : coords v = 0) :
    s.followed h = (s.judged h, .finished .xConverged) ∧
      (s.judged h).search.iterate.x = h.run.search.iterate.x₀ + v := by
  have hwhole := hl.whole
  have hplace : h.run.search.iterate.x₀ + v = h.run.search.iterate.x₀ := by
    apply coords_injective
    rw [coords_add, hrests, add_zero]
  have hlength : (s.clamped h).length = 0 := by
    rw [hwhole.length, norm_eq_zero, coords_timesEach, hrests, zero_mul]
  have hreduction : (s.clamped h).reduction = 0 := by
    rw [hwhole.reduction, hrests, zero_dotProduct, mul_zero]
  have htrial : (s.clamped h).Rests :=
    ⟨hlength, hreduction, hwhole.newtonReduction.trans hreduction, hwhole.parameter,
      hwhole.newtonLength.trans hlength⟩
  have hvalue : s.value h = some h.run.search.iterate.f₀ := by
    rw [value, hl.found_eq, hplace, hl.head.f₀]
    rfl
  rw [hplace]
  exact s.followed_of_rests hl.config.valid hl.head.steady hl.head.first
    (by rw [hwhole.step, hrests]) htrial hvalue

theorem finish_eq (o : Outcome)
    (hx : (s.judged h).search.iterate.x = h.run.search.iterate.x₀ + v) :
    (s.finish (s.judged h) o).1.params = h.run.search.iterate.x₀ + v ∧
      (s.finish (s.judged h) o).1.outcome = o ∧
      (s.finish (s.judged h) o).1.iterations = h.run.iterations := by
  have hheld : (s.target h, a.misfit b (h.run.search.iterate.x₀ + v)) ∈ (s.judged h).trials := by
    rw [(s.judged_of_found hl.found_eq).1]
    exact List.mem_cons_self
  have hplace : (s.judged h).search.iterate.x = s.target h := hx.trans hl.target_eq.symm
  obtain ⟨u, hu⟩ := knownResiduals?_of_held (r := s.judged h)
    (x := (s.judged h).search.iterate.x) (.inr (.inr ⟨_, hplace ▸ hheld⟩))
  have hfinish := s.finish_known (o := o) hu
  rw [hx, judged_iterations] at hfinish
  exact hfinish

end Leads

end Setup

end LeastSquares
