import LeastSquares.Proofs.Linear.Singular
import LeastSquares.Proofs.Packed.Storage
import LeastSquares.Proofs.TrustStep.Newton
import LeastSquares.TrustStep.Run

namespace LeastSquares

open Matrix

variable {n : Nat}

theorem Symmetric.posDef_of_convex {h : Symmetric ℝ n} {a : ℝ} (ha : 0 < a)
    (hconvex : ∀ v, a * (v ⬝ᵥ v) ≤ v ⬝ᵥ h.matrix *ᵥ v) : h.matrix.PosDef := by
  rw [posDef_iff]
  intro v hv
  exact (mul_pos ha (dotProduct_self_pos hv)).trans_le (hconvex v)

/-- The Hessian is not taken for singular where it is positive definite. -/
def Symmetric.Clear (h : Symmetric ℝ n) : Prop :=
  ∀ l, h.cholesky = .ok l →
    singularFactor * h.maxAbs < l.smallestSingular.sigma * l.smallestSingular.sigma

theorem singularFactor_lt : (singularFactor : ℝ) < 2 / 5 := by
  have hpow : (2⁻¹ : ℝ) ^ 52 ≤ 2⁻¹ ^ 8 :=
    pow_le_pow_of_le_one (by norm_num) (by norm_num) (by norm_num)
  have hepsilon : (Scalar.epsilon : ℝ) ≤ 1 / 256 := hpow.trans_eq (by norm_num)
  change 50 * Scalar.epsilon < (2 / 5 : ℝ)
  linarith

theorem Symmetric.clear_of_convex {h : Symmetric ℝ n} {a : ℝ} (hn : 0 < n) (ha : 0 < a)
    (hconvex : ∀ v, a * (v ⬝ᵥ v) ≤ v ⬝ᵥ h.matrix *ᵥ v) (hlarge : singularFactor * h.maxAbs < a) :
    h.Clear :=
  fun _ hl => hlarge.trans_le (Lower.le_sigma_mul_self hl hn ha hconvex)

/-- A fresh start takes the Newton step if the factor is not next to singular and the step is
within the radius. -/
theorem StepTask.run_newton {t : StepTask ℝ n} {l : Lower ℝ n} {q s : Vector ℝ n}
    {w : StepWork ℝ n} (hl : t.hessian.cholesky = .ok l)
    (hclear : ¬l.smallestSingular.sigma * l.smallestSingular.sigma ≤
      singularFactor * t.largestEntry)
    (hs : l.newtonStep t.gradient = .ok (q, s)) (hshort : Geometry.norm s - t.radius ≤ t.longBy) :
    t.run .freshStart w = { w with
      memory := { (t.freshStart w).2.memory with
        newtonReduction := 1 / 2 * normSq q
        newtonLength := Geometry.norm s
        newton := some s }
      parameter := 0
      factor := some l
      step := s
      energy := normSq q
      length := Geometry.norm s
      excess := Geometry.norm s - t.radius } := by
  have hfirst : ¬Phase.freshStart = Phase.done := by decide
  have hsecond : ¬(t.transition .freshStart w).1 = Phase.done := fun h => by cases h
  rw [StepTask.run, dif_neg hfirst, StepTask.run, dif_neg hsecond]
  unfold StepTask.transition StepTask.freshStart StepTask.tryNewton
  dsimp only
  rw [hl]
  dsimp only
  rw [if_neg hclear, hs]
  dsimp only
  rw [if_pos hshort, StepTask.run, dif_pos rfl]

theorem StepTask.tryNewton_long {t : StepTask ℝ n} {w : StepWork ℝ n} {l : Lower ℝ n}
    {q s : Vector ℝ n} (hl : t.hessian.cholesky = .ok l)
    (hclear : ¬l.smallestSingular.sigma * l.smallestSingular.sigma ≤
      singularFactor * t.largestEntry)
    (hs : l.newtonStep t.gradient = .ok (q, s)) (hlong : ¬Geometry.norm s - t.radius ≤ t.longBy) :
    t.tryNewton w = (.bracket, { w with
      memory := { w.memory with
        newtonReduction := 1 / 2 * normSq q
        newtonLength := Geometry.norm s
        newton := some s
        newtonSlope := Geometry.norm s / square (Geometry.norm (l.forward s))
        low := max w.memory.low ((Geometry.norm s - t.radius) *
          (Geometry.norm s / square (Geometry.norm (l.forward s))))
        last := some ⟨0, l, s, Geometry.norm s⟩ }
      parameter := 0
      length := Geometry.norm s
      excess := Geometry.norm s - t.radius }) := by
  have hv := Lower.solve_eq_ok (Symmetric.cholesky_positiveDiagonal hl) s
  simp only [StepTask.tryNewton, hl, if_neg hclear, hs, if_neg hlong, hv]

/-- The trial of a whole Newton step, which is `s` in the scale of the region. -/
noncomputable def Trial.newton (h : Symmetric ℝ n) (g d s : Vector ℝ n) : Trial ℝ n where
  step := overEach s d
  length := Geometry.norm s
  slope := coords (overEach g d) ⬝ᵥ coords s
  reduction := 1 / 2 * (coords s ⬝ᵥ (h.diagonallyScaled d).matrix *ᵥ coords s)
  newtonReduction := 1 / 2 * (coords s ⬝ᵥ (h.diagonallyScaled d).matrix *ᵥ coords s)
  parameter := 0
  newtonLength := Geometry.norm s

theorem trustStep_newton {c : Config ℝ} {h : Symmetric ℝ n} {g d s : Vector ℝ n} {radius : ℝ}
    {m : StepMemory ℝ n} (hm : m.isFresh = true) (hdef : (h.diagonallyScaled d).matrix.PosDef)
    (hclear : (h.diagonallyScaled d).Clear)
    (hs : (h.diagonallyScaled d).matrix *ᵥ coords s = -coords (overEach g d))
    (hshort : Geometry.norm s - radius ≤ c.phiMax * radius) :
    (trustStep c h g d radius m).1 = .newton h g d s := by
  obtain ⟨l, hl⟩ := Symmetric.exists_cholesky_of_posDef hdef
  obtain ⟨q, s', hstep, heq, henergy⟩ := Lower.newtonStep_spec hl (overEach g d)
  obtain rfl : s' = s :=
    (Symmetric.solves_of_cholesky hl heq).unique (Symmetric.solves_of_cholesky hl hs)
  have hrun := StepTask.run_newton (t := StepTask.ofModel h g d radius c) (w := .start m) hl
    (not_le.mpr (hclear l hl)) hstep hshort
  unfold trustStep
  dsimp only
  rw [hm, if_pos rfl, hrun]
  unfold StepTask.finish StepWork.start Trial.newton
  simp only [Bool.false_eq_true, if_false, zero_mul, add_zero, henergy, StepTask.ofModel, inner_eq]

end LeastSquares
