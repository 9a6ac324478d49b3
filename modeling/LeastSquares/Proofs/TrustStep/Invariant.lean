import LeastSquares.Proofs.TrustStep.Bracket

namespace LeastSquares

open Matrix

variable {n : Nat}

namespace StepTask

variable (t : StepTask ℝ n)

theorem run_invariant {inv : Phase → StepWork ℝ n → Prop}
    (hstep : ∀ {phase w}, inv phase w → inv (t.transition phase w).1 (t.transition phase w).2)
    {phase : Phase} {w : StepWork ℝ n} (hw : inv phase w) : inv .done (t.run phase w) := by
  induction phase, w using StepTask.run.induct t with
  | case1 w =>
    rw [run, dif_pos rfl]
    exact hw
  | case2 phase w h ih =>
    rw [run, dif_neg h]
    exact ih (hstep hw)

/-- The factor in use is that of the shifted Hessian. -/
structure Shifted (w : StepWork ℝ n) : Prop where
  plain : w.special = false ∧ w.stuck = false
  bracketed : t.Bracketed w.memory
  count_le : w.memory.count ≤ t.limit + 1
  parameter : 0 < w.parameter ∨ w.parameter = 0 ∧ 0 < w.memory.newtonLength
  factor : ∃ l, w.factor = some l ∧ (t.hessian.addToDiagonal w.parameter).cholesky = .ok l

/-- The step is that of the shifted model. -/
structure Stepped (w : StepWork ℝ n) : Prop where
  solves : Solves t.hessian t.gradient w.parameter w.step
  length_eq : w.length = Geometry.norm w.step
  energy_eq : w.energy =
    coords w.step ⬝ᵥ (t.hessian.addToDiagonal w.parameter).matrix *ᵥ coords w.step
  excess_eq : w.excess = w.length - t.radius

/-- A step along a direction of little curvature, from that of a shifted model out to the
radius. -/
structure Stretched (w : StepWork ℝ n) : Prop where
  length_eq : w.length = Geometry.norm w.step
  reaches : coords w.step ⬝ᵥ coords w.step = t.radius * t.radius
  base : ∃ (s : Vector ℝ n) (v : Fin n → ℝ), Solves t.hessian t.gradient w.parameter s ∧
    coords w.step = coords s + v ∧
    v ⬝ᵥ (t.hessian.addToDiagonal w.parameter).matrix *ᵥ v ≤ t.loss *
      (coords s ⬝ᵥ (t.hessian.addToDiagonal w.parameter).matrix *ᵥ coords s
        + w.parameter * t.radius * t.radius)

/-- How a call ends: never without a step. -/
structure Ended (w : StepWork ℝ n) : Prop where
  remembers : w.memory.Remembers t.hessian t.gradient
  unstuck : w.stuck = false
  plain : w.special = false → 0 ≤ w.parameter ∧
    Solves t.hessian t.gradient w.parameter w.step ∧ w.length = Geometry.norm w.step ∧
    w.energy = coords w.step ⬝ᵥ (t.hessian.addToDiagonal w.parameter).matrix *ᵥ coords w.step
  special : w.special = true → 0 < w.parameter ∧ t.Stretched w

def Holds : Phase → StepWork ℝ n → Prop
  | .freshStart, w => w.special = false ∧ w.stuck = false
  | .tryNewton, w => (w.special = false ∧ w.stuck = false) ∧
      w.memory.count = 0 ∧ w.memory.circles = none
  | .bracket, w => (w.special = false ∧ w.stuck = false) ∧ w.memory.count = 0 ∧
      w.memory.Remembers t.hessian t.gradient ∧
      (0 < w.memory.newtonLength → t.radius < w.memory.newtonLength)
  | .restart, w => (w.special = false ∧ w.stuck = false) ∧
      w.memory.Remembers t.hessian t.gradient
  | .shift, w => (w.special = false ∧ w.stuck = false) ∧ t.Bracketed w.memory ∧
      w.memory.count ≤ t.limit
  | .solve, w => t.Shifted w
  | .checkSpecial, w => t.Shifted w ∧ t.Stepped w ∧ w.excess < 0
  | .update, w => t.Shifted w ∧ t.Stepped w
  | .done, w => t.Ended w

variable {t} {w : StepWork ℝ n}

theorem freshStart_holds (hw : t.Holds .freshStart w) :
    t.Holds (t.freshStart w).1 (t.freshStart w).2 :=
  ⟨hw, rfl, rfl⟩

theorem tryNewton_holds (hv : t.Valid) (hw : t.Holds .tryNewton w) :
    t.Holds (t.tryNewton w).1 (t.tryNewton w).2 := by
  obtain ⟨hplain, hcount, hcircles⟩ := hw
  have hnone (b : ℝ × ℝ) (hb : w.memory.circles = some b) : b = t.hessian.gershgorin := by
    rw [hcircles] at hb
    cases hb
  obtain ⟨e, he, heq⟩ | ⟨l, hl, ⟨-, heq⟩ | ⟨-, s, energy, hs, henergy, hcases⟩⟩ :=
    t.tryNewton_cases w
  · have hnot : ¬(0 : ℝ) < - -e.rayleigh := by
      rw [neg_neg, not_lt]
      exact rayleigh_nonpos he
    rw [heq]
    exact ⟨hplain, hcount, ⟨hnone, fun h => absurd h hnot⟩, fun h => absurd h hnot⟩
  · have hnot : ¬0 < -(l.smallestSingular.sigma * l.smallestSingular.sigma) := by
      rw [not_lt, neg_nonpos]
      exact mul_self_nonneg _
    rw [heq]
    exact ⟨hplain, hcount, ⟨hnone, fun h => absurd h hnot⟩, fun h => absurd h hnot⟩
  · have hsolves := Symmetric.solves_of_cholesky hl hs
    rw [← t.hessian.matrix_addToDiagonal_zero] at henergy
    have hremembers (slope low : ℝ) (last : Option (Factored ℝ n)) :
        StepMemory.Remembers { w.memory with
          newtonReduction := 1 / 2 * energy
          newtonLength := Geometry.norm s
          newton := some s
          newtonSlope := slope
          low
          last } t.hessian t.gradient := by
      refine ⟨hnone, fun _ => ⟨s, rfl, hsolves, rfl, ?_⟩⟩
      rw [← henergy]
      ring
    obtain ⟨-, heq⟩ | ⟨hlong, heq⟩ := hcases
    · rw [heq]
      exact ⟨hremembers _ _ _, hplain.2, fun _ => ⟨le_refl 0, hsolves, rfl, henergy⟩,
        fun h => by simp [hplain.1] at h⟩
    · have hlongBy := hv.longBy_nonneg
      rw [heq]
      exact ⟨hplain, hcount, hremembers _ _ _, fun _ => by linarith⟩

theorem bracket_holds (hv : t.Valid) (hw : t.Holds .bracket w) :
    t.Holds (t.bracket w).1 (t.bracket w).2 := by
  obtain ⟨hplain, hcount, hremembers, hbeyond⟩ := hw
  refine ⟨hplain, bracketed_bracketMemory hremembers hbeyond, ?_⟩
  have hlimit := hv.limit_pos
  rw [bracket, t.bracketMemory_count, hcount]
  omega

theorem hebden_holds (hplain : w.special = false ∧ w.stuck = false)
    (hm : t.Bracketed w.memory) (hcount : w.memory.count ≤ t.limit) :
    t.Holds (t.hebden w).1 (t.hebden w).2 := by
  obtain heq | ⟨parameter, heq⟩ := t.hebden_cases w
  · rw [heq]
    exact ⟨hplain, hm, hcount⟩
  · rw [heq]
    exact ⟨hplain, hm.raiseLow parameter, hcount⟩

theorem bracketed_restartMemory {m : StepMemory ℝ n} (hm : m.Remembers t.hessian t.gradient)
    (hbeyond : 0 < m.newtonLength → t.radius < m.newtonLength) :
    t.Bracketed (t.restartMemory m) := by
  unfold restartMemory
  dsimp only
  split
  · exact bracketed_bracketMemory ⟨hm.circles, hm.newton⟩ hbeyond
  · exact bracketed_bracketMemory ⟨hm.circles, hm.newton⟩ hbeyond

theorem restart_holds (hv : t.Valid) (hw : t.Holds .restart w) :
    t.Holds (t.restart w).1 (t.restart w).2 := by
  obtain ⟨hplain, hm⟩ := hw
  have hlimit := hv.limit_pos
  obtain ⟨s, hnewton, hpos, -, heq⟩ | ⟨hlong, hcases⟩ := t.restart_cases w
  · obtain ⟨s', hs', hsolves, hlength, henergy⟩ := hm.newton hpos
    obtain rfl : s = s' := Option.some.inj (hnewton.symm.trans hs')
    rw [heq]
    exact ⟨⟨hm.circles, hm.newton⟩, hplain.2, fun _ => ⟨le_refl 0, hsolves, hlength, henergy⟩,
      fun h => by simp [hplain.1] at h⟩
  · have hbeyond (hpos : 0 < w.memory.newtonLength) : t.radius < w.memory.newtonLength := by
      obtain ⟨s', hs', -⟩ := hm.newton hpos
      have hexcess := not_le.mp (hlong s' hs' hpos)
      have hlongBy := hv.longBy_nonneg
      linarith
    have hm' : t.Bracketed (t.restartMemory { w.memory with count := 0 }) :=
      bracketed_restartMemory ⟨hm.circles, hm.newton⟩ hbeyond
    have hcount : (t.restartMemory { w.memory with count := 0 }).count ≤ t.limit := by
      rw [t.restartMemory_count]
      exact Int.le_of_lt hlimit
    obtain ⟨last, -, heq⟩ | heq := hcases
    · rw [heq]
      refine hebden_holds ?_ ?_ ?_
      · exact hplain
      · exact hm'.cutByLast last
      · exact (t.cutByLast_count _ last).trans_le hcount
    · rw [heq]
      exact ⟨hplain, hm', hcount⟩

theorem not_ceiling_lt (hv : t.Valid) {k : Int} (hk : k ≤ t.limit) : ¬t.ceiling < k + 1 := by
  have hlimit := hv.limit_pos
  have heq := hv.ceiling_eq
  omega

theorem shift_holds (hv : t.Valid) (hw : t.Holds .shift w) :
    t.Holds (t.shift w).1 (t.shift w).2 := by
  obtain ⟨hplain, hm, hcount⟩ := hw
  have hm' := hm.withCount (w.memory.count + 1)
  obtain ⟨hgiven, -⟩ | ⟨-, a, ha, ⟨l, hl, heq⟩ | ⟨e, he, heq⟩⟩ := t.shift_cases w
  · exact absurd hgiven (not_ceiling_lt hv hcount)
  · subst ha
    rw [heq]
    exact ⟨hplain, hm', by dsimp only; omega, safeParameter_spec hm' _, ⟨l, rfl, hl⟩⟩
  · have hlow : (0 : ℝ) ≤ max w.memory.low (a - e.rayleigh) :=
      hm.low_nonneg.trans (le_max_left _ _)
    have hnot : ¬0 < -max w.memory.low (a - e.rayleigh) := by
      rw [not_lt, neg_nonpos]
      exact hlow
    have hwithin := count_le_of_failed hm' (ha ▸ he)
    rw [heq]
    refine ⟨hplain, Bracketed.widen ?_, ?_⟩
    · exact ⟨⟨hm'.remembers.circles, fun h => absurd h hnot⟩, hm'.circles, hlow, hm'.high_pos,
        fun h => absurd h hnot⟩
    · rw [widen_count]
      exact hwithin

end StepTask

end LeastSquares
