import LeastSquares.Proofs.TrustStep.Restarted

namespace LeastSquares

open Matrix

variable {n : Nat}

namespace StepTask

/-- The next shift makes the model positive definite, and with its factor everything can be
solved. -/
def Settles (t : StepTask ℝ n) (w : StepWork ℝ n) : Prop :=
  let m := { w.memory with count := w.memory.count + 1 }
  let a := t.safeParameter m w.parameter
  (t.hessian.addToDiagonal a).matrix.PosDef ∧
    ∃ l, (t.hessian.addToDiagonal a).cholesky = .ok l ∧
      (∀ x, (∃ y, l.solve x = .ok y) ∧ ∃ y, l.solveTranspose x = .ok y) ∧
      t.transition .shift w = (.solve, { w with memory := m, parameter := a, factor := some l }) ∧
      (t.transition .solve { w with memory := m, parameter := a, factor := some l }).1 ≠ .shift

variable {t : StepTask ℝ n} {w : StepWork ℝ n} {phase : Phase}

theorem shift_settles (hv : t.Valid) (hw : t.Holds .shift w) (hcount : t.limit ≤ w.memory.count) :
    t.Settles w := by
  obtain ⟨-, hm, hbefore⟩ := hw
  have hm' := hm.withCount (w.memory.count + 1)
  have hlimit := hv.limit_pos
  have hgiven : ¬t.ceiling < w.memory.count + 1 := by
    have heq := hv.ceiling_eq
    omega
  have hdef := posDef_safeParameter hm' (Int.lt_add_one_of_le hcount) w.parameter
  obtain ⟨l, hl⟩ := Symmetric.exists_cholesky_of_posDef hdef
  have hpos := Symmetric.cholesky_positiveDiagonal hl
  refine ⟨hdef, l, hl, fun x => ⟨⟨_, Lower.solve_eq_ok hpos x⟩, _,
    Lower.solveTranspose_eq_ok hpos x⟩, ?_, ?_⟩
  · simp only [transition, shift, if_neg hgiven, hl]
  · obtain ⟨w', hnext | ⟨hnext, -⟩ | hnext, -⟩ := solve_spec (t := t)
      (w := { w with
        memory := { w.memory with count := w.memory.count + 1 }
        parameter := t.safeParameter { w.memory with count := w.memory.count + 1 } w.parameter
        factor := some l }) rfl hl <;> simp [transition, hnext]

theorem count_transition_le (hv : t.Valid) (hw : t.Holds phase w) (hphase : phase ≠ .done) :
    (t.transition phase w).2.memory.count ≤ t.limit + 1 := by
  have hlimit := hv.limit_pos
  cases phase with
  | freshStart => exact (Int.le_of_lt hlimit).trans (Int.le_add_one le_rfl)
  | tryNewton =>
    obtain ⟨-, hcount, -⟩ := hw
    rw [transition, (t.tryNewton_next w).2]
    omega
  | bracket =>
    obtain ⟨-, hcount, -⟩ := hw
    rw [transition, bracket, t.bracketMemory_count]
    omega
  | restart =>
    rw [transition, restart_count]
    omega
  | shift =>
    obtain ⟨-, -, hcount⟩ := hw
    rw [transition, shift_count]
    omega
  | solve =>
    rw [transition, (t.solve_next w).2]
    exact Shifted.count_le hw
  | checkSpecial =>
    rw [transition, (t.checkSpecial_next w).2]
    exact hw.1.count_le
  | update =>
    rw [transition, (t.update_next w).2]
    exact hw.1.count_le
  | done => exact absurd rfl hphase

/-- What holds before each phase of a call, and of the shifts it made when it is through. -/
structure Within (t : StepTask ℝ n) (phase : Phase) (w : StepWork ℝ n) : Prop where
  holds : t.Holds phase w
  count_le : phase = .done → w.memory.count ≤ t.limit + 1

theorem transition_within (hv : t.Valid) (hw : t.Within phase w) :
    t.Within (t.transition phase w).1 (t.transition phase w).2 := by
  refine ⟨transition_holds hv hw.holds, fun _ => ?_⟩
  by_cases hdone : phase = .done
  · subst hdone
    exact hw.count_le rfl
  · exact count_transition_le hv hw.holds hdone

end StepTask

variable {c : Config ℝ} {h : Symmetric ℝ n} {g d : Vector ℝ n} {m : StepMemory ℝ n} {radius : ℝ}

/-- No call for a model is given up: where the limit is reached the next shift is certain to
succeed, and the call is through with it. -/
theorem trustStep_settled (hc : c.validate n = .ok ()) (hlimit : c.hebdenIterationLimit < 2 ^ 30)
    (hm : m.Serves c h g d) (hr : 0 < radius) :
    let t := StepTask.ofModel h g d radius c
    let start := if m.isFresh then Phase.freshStart else .restart
    (∀ k w, t.after k start (.start m) = (.shift, w) →
      c.hebdenIterationLimit ≤ w.memory.count → t.Settles w) ∧
    (trustStep c h g d radius m).2.iterations ≤ c.hebdenIterationLimit + 1 ∧
    (t.run start (.start m)).stuck = false := by
  intro t start
  have hv : t.Valid := valid_ofModel hc hlimit hr
  have hfits := hm.fits hc hlimit
  have hstart : t.Holds start (.start m) := hfits.holds radius
  have hkept : t.limit = c.hebdenIterationLimit := limit_ofModel hlimit h g d radius
  refine ⟨fun k w hw hcount => ?_, ?_, (ended_of_fits hc hlimit hfits hr).unstuck⟩
  · have hafter := t.after_invariant t.Holds (StepTask.transition_holds hv) k hstart
    rw [hw] at hafter
    exact StepTask.shift_settles hv hafter (hkept ▸ hcount)
  · have hwithin : t.Within start (.start m) := by
      refine ⟨hstart, fun hdone => ?_⟩
      cases hfresh : m.isFresh <;> simp [start, hfresh] at hdone
    have hcount := (t.run_invariant (StepTask.transition_within hv) hwithin).count_le rfl
    rw [hkept] at hcount
    rw [trustStep, StepMemory.iterations, StepTask.count_finish, Int.toNat_le]
    exact hcount

/-- A model that is nowhere convex, asked again with a larger radius. -/
theorem trustStep_settled_concave :
    let h : Symmetric ℝ 1 := .ofFn fun _ _ => -1
    let m := (trustStep Config.default h #v[1] #v[1] 1 .new).2
    let t := StepTask.ofModel h #v[1] #v[1] 2 Config.default
    let start := if m.isFresh then Phase.freshStart else .restart
    (∀ k w, t.after k start (.start m) = (.shift, w) → 50 ≤ w.memory.count → t.Settles w) ∧
    (trustStep Config.default h #v[1] #v[1] 2 m).2.iterations ≤ 51 ∧
    (t.run start (.start m)).stuck = false := by
  exact trustStep_settled (Config.validate_default 1) default_hebdenLimit
    (.after (.fresh rfl) one_pos) two_pos

end LeastSquares
