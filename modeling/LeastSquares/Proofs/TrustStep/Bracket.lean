import LeastSquares.Proofs.Linear.Gershgorin
import LeastSquares.Proofs.TrustStep.Newton
import LeastSquares.TrustStep.Run

namespace LeastSquares

open Matrix

variable {n : Nat}

/-- What a memory holds of the model with Hessian `h` and gradient `g`, whatever the radius. -/
structure StepMemory.Remembers (m : StepMemory ℝ n) (h : Symmetric ℝ n) (g : Vector ℝ n) :
    Prop where
  circles : ∀ b, m.circles = some b → b = h.gershgorin
  newton : 0 < m.newtonLength → ∃ s, m.newton = some s ∧ Solves h g 0 s ∧
    m.newtonLength = Geometry.norm s ∧
    2 * m.newtonReduction = coords s ⬝ᵥ (h.addToDiagonal 0).matrix *ᵥ coords s

namespace StepTask

structure Valid (t : StepTask ℝ n) : Prop where
  radius_pos : 0 < t.radius
  longBy_nonneg : 0 ≤ t.longBy
  limit_pos : 1 ≤ t.limit
  ceiling_eq : t.ceiling = 2 * t.limit

/-- The bracket of a call, from which every parameter is taken. A Newton step that is known
is longer than the radius. -/
structure Bracketed (t : StepTask ℝ n) (m : StepMemory ℝ n) : Prop where
  remembers : m.Remembers t.hessian t.gradient
  circles : m.circles = some t.hessian.gershgorin
  low_nonneg : 0 ≤ m.low
  high_pos : 0 < m.high
  beyond : 0 < m.newtonLength → t.radius < m.newtonLength

variable {t : StepTask ℝ n} {m : StepMemory ℝ n}

theorem Bracketed.within (hm : t.Bracketed m) {low high : ℝ} (hlow : 0 ≤ low) (hhigh : 0 < high)
    (count : Int) (last : Option (Factored ℝ n)) :
    t.Bracketed { m with low, high, count, last } :=
  { hm with remembers := { hm.remembers with }, low_nonneg := hlow, high_pos := hhigh }

theorem Bracketed.widen (hm : t.Bracketed m) : t.Bracketed m.widen := by
  unfold StepMemory.widen
  split
  · have hlow := hm.low_nonneg
    have hhigh : (0 : ℝ) < 2 * m.low + 1 / 1000 := by linarith
    exact hm.within hlow hhigh m.count m.last
  · exact hm

theorem Bracketed.raiseLow (hm : t.Bracketed m) (v : ℝ) : t.Bracketed (m.raiseLow v) :=
  hm.within (hm.low_nonneg.trans (le_max_left m.low v)) hm.high_pos m.count m.last

theorem Bracketed.cutHigh (hm : t.Bracketed m) {v : ℝ} (hv : 0 < v) :
    t.Bracketed { m with high := min m.high v } :=
  hm.within hm.low_nonneg (lt_min hm.high_pos hv) m.count m.last

theorem Bracketed.withCount (hm : t.Bracketed m) (k : Int) : t.Bracketed { m with count := k } :=
  hm.within hm.low_nonneg hm.high_pos k m.last

theorem Bracketed.withLast (hm : t.Bracketed m) (last : Option (Factored ℝ n)) :
    t.Bracketed { m with last } :=
  hm.within hm.low_nonneg hm.high_pos m.count last

theorem circles_getD (hm : ∀ b, m.circles = some b → b = t.hessian.gershgorin) :
    m.circles.getD t.hessian.gershgorin = t.hessian.gershgorin := by
  cases hc : m.circles with
  | none => rfl
  | some b => exact hm b hc

theorem bracketed_bracketMemory (hm : m.Remembers t.hessian t.gradient)
    (hbeyond : 0 < m.newtonLength → t.radius < m.newtonLength) :
    t.Bracketed (t.bracketMemory m) := by
  have hcircles := circles_getD hm.circles
  unfold bracketMemory
  rw [hcircles]
  apply Bracketed.widen
  refine ⟨⟨?_, hm.newton⟩, rfl, le_max_right _ _, ?_, hbeyond⟩
  · rintro b hb
    exact (Option.some.inj hb).symm
  · dsimp only
    split
    · norm_num
    · next h => exact not_le.mp h

theorem Bracketed.cutByLast (hm : t.Bracketed m) (last : Factored ℝ n) :
    t.Bracketed (t.cutByLast m last) := by
  unfold StepTask.cutByLast
  dsimp only
  apply Bracketed.widen
  split
  · exact hm.raiseLow _
  · split
    · next h => exact hm.cutHigh h.1
    · exact hm

theorem safeParameter_spec (hm : t.Bracketed m) (a : ℝ) :
    0 < t.safeParameter m a ∨ t.safeParameter m a = 0 ∧ 0 < m.newtonLength := by
  unfold safeParameter
  have hhigh : 0 < m.high * max (1 / 1000) (Scalar.sqrt (max m.low 0 / m.high)) :=
    mul_pos hm.high_pos (lt_max_of_lt_left (by norm_num))
  have hpassed : 0 < 2 * max (max m.low (-(m.circles.elim 0 Prod.fst))) 0
      + singularFactor * max t.largestEntry 1 := by
    apply add_pos_of_nonneg_of_pos
    · exact mul_nonneg (by norm_num) (le_max_right _ _)
    · apply mul_pos _ (lt_max_of_lt_right one_pos)
      exact mul_pos (by norm_num) epsilon_pos
  split
  · exact .inl hpassed
  · split
    · exact .inl hhigh
    · next h =>
      rw [not_or, not_or, not_lt, not_le, not_le] at h
      obtain ⟨hlow, -, hnewton⟩ := h
      rcases lt_or_eq_of_le (hm.low_nonneg.trans hlow) with hpos | hzero
      · exact .inl hpos
      · exact .inr ⟨hzero.symm, by linarith⟩

theorem posDef_safeParameter (hm : t.Bracketed m) (hk : t.limit < m.count) (a : ℝ) :
    (t.hessian.addToDiagonal (t.safeParameter m a)).matrix.PosDef := by
  apply Symmetric.posDef_addToDiagonal
  unfold safeParameter
  rw [if_pos hk, hm.circles]
  have hmax : -t.hessian.gershgorin.1 ≤ max (max m.low (-t.hessian.gershgorin.1)) 0 :=
    (le_max_right _ _).trans (le_max_left _ _)
  have hnonneg : 0 ≤ max (max m.low (-t.hessian.gershgorin.1)) 0 := le_max_right _ _
  have hpos : 0 < singularFactor * max t.largestEntry 1 :=
    mul_pos (mul_pos (by norm_num) epsilon_pos) (lt_max_of_lt_right one_pos)
  change -t.hessian.gershgorin.1 < 2 * max (max m.low (-t.hessian.gershgorin.1)) 0 + _
  linarith

theorem count_le_of_failed (hm : t.Bracketed m) {a : ℝ} {e : NotPositiveDefinite ℝ n}
    (he : (t.hessian.addToDiagonal (t.safeParameter m a)).cholesky = .error e) :
    m.count ≤ t.limit := by
  by_contra hpassed
  have hdef := posDef_safeParameter hm (not_le.mp hpassed) a
  exact Symmetric.not_posDef_of_failed ((Cholesky.rows_spec _).2 e he) hdef

end StepTask

end LeastSquares
