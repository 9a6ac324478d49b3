import LeastSquares.Proofs.TrustStep.Kept
import LeastSquares.Proofs.TrustStep.Whole

namespace LeastSquares

open Matrix

variable {n : Nat}

/-- The memory holds the Newton step `s` of a model with Hessian `h`. -/
def StepMemory.HasNewton (m : StepMemory ℝ n) (h : Symmetric ℝ n) (s : Vector ℝ n) : Prop :=
  m.newtonPart = (some s, Geometry.norm s, 1 / 2 * (coords s ⬝ᵥ h.matrix *ᵥ coords s))

namespace StepMemory.HasNewton

variable {m : StepMemory ℝ n} {h : Symmetric ℝ n} {s : Vector ℝ n} (hm : m.HasNewton h s)
include hm

theorem newton : m.newton = some s := congrArg Prod.fst hm

theorem length : m.newtonLength = Geometry.norm s := congrArg (·.2.1) hm

theorem reduction : m.newtonReduction = 1 / 2 * (coords s ⬝ᵥ h.matrix *ᵥ coords s) :=
  congrArg (·.2.2) hm

theorem reduction_nonneg (hdef : h.matrix.PosDef) : 0 ≤ m.newtonReduction := by
  have hform := hdef.posSemidef.dotProduct_mulVec_nonneg (coords s)
  rw [star_trivial] at hform
  rw [hm.reduction]
  linarith

end StepMemory.HasNewton

namespace StepTask

variable (t : StepTask ℝ n) (s : Vector ℝ n)

/-- What holds before each phase of a call for a model whose Newton step is `s`. -/
def Definite : Phase → StepWork ℝ n → Prop
  | .freshStart, w => t.Gaining .freshStart w
  | .tryNewton, w => t.Gaining .tryNewton w
  | phase, w => t.Gaining phase w ∧ w.memory.HasNewton t.hessian s

variable {t s} {w : StepWork ℝ n}

theorem Definite.gaining {phase : Phase} (hw : t.Definite s phase w) : t.Gaining phase w := by
  cases phase with
  | freshStart | tryNewton => exact hw
  | bracket | restart | shift | solve | checkSpecial | update | done => exact hw.1

section

variable (hdef : t.hessian.matrix.PosDef)
  (hclear : ∀ l, t.hessian.cholesky = .ok l →
    singularFactor * t.largestEntry < l.smallestSingular.sigma * l.smallestSingular.sigma)
  (hs : t.hessian.matrix *ᵥ coords s = -coords t.gradient)
include hdef hclear hs

theorem tryNewton_hasNewton : (t.tryNewton w).2.memory.HasNewton t.hessian s := by
  obtain ⟨l, hl⟩ := Symmetric.exists_cholesky_of_posDef hdef
  obtain ⟨e, he, -⟩ | ⟨l', hl', ⟨hsmall, -⟩ | ⟨-, s', energy, heqn, rfl, hcases⟩⟩ :=
    t.tryNewton_cases w
  · rw [hl] at he
    cases he
  · exact absurd hsmall (not_le.mpr (hclear l' hl'))
  · obtain rfl : s' = s :=
      (Symmetric.solves_of_cholesky hl heqn).unique (Symmetric.solves_of_cholesky hl hs)
    obtain ⟨-, heq⟩ | ⟨-, heq⟩ := hcases
    · rw [heq]
      rfl
    · rw [heq]
      rfl

omit hclear hs in
theorem shift_hasNewton (hm : w.memory.Nonneg) (hw : w.memory.HasNewton t.hessian s) :
    (t.shift w).2.memory.HasNewton t.hessian s := by
  rcases newtonPart_shift (t := t) hm.low with hkept | ⟨⟨e, he⟩, -⟩
  · exact hkept.trans hw
  · exfalso
    have hparameter := safeParameter_nonneg (t := t)
      (⟨hm.reduction, hm.low, hm.high⟩ : StepMemory.Nonneg
        { w.memory with count := w.memory.count + 1 }) w.parameter
    apply Symmetric.not_posDef_of_failed ((Cholesky.rows_spec _).2 e he)
    rw [Symmetric.posDef_iff] at hdef ⊢
    intro v hv
    have hform := hdef v hv
    have hshift := mul_nonneg hparameter (dotProduct_self_nonneg v)
    rw [Symmetric.dotProduct_addToDiagonal]
    linarith

theorem transition_definite {phase : Phase} (hw : t.Definite s phase w) :
    t.Definite s (t.transition phase w).1 (t.transition phase w).2 := by
  have hgaining := transition_gaining hw.gaining
  have hnewton (hm : (t.transition phase w).2.memory.HasNewton t.hessian s) :
      t.Definite s (t.transition phase w).1 (t.transition phase w).2 := by
    generalize (t.transition phase w).1 = next at hgaining ⊢
    cases next with
    | freshStart | tryNewton => exact hgaining
    | bracket | restart | shift | solve | checkSpecial | update | done => exact ⟨hgaining, hm⟩
  cases phase with
  | freshStart => exact hgaining
  | tryNewton => exact hnewton (tryNewton_hasNewton hdef hclear hs)
  | shift => exact hnewton (shift_hasNewton hdef hw.1.2 hw.2)
  | bracket | restart | solve | checkSpecial | update | done =>
    exact hnewton ((t.newtonPart_transition w (by decide) (by decide) (by decide)).trans hw.2)

theorem run_hasNewton {phase : Phase} (hw : t.Definite s phase w) :
    (t.run phase w).memory.HasNewton t.hessian s :=
  (t.run_invariant (transition_definite hdef hclear hs) hw).2

end

theorem Shifted.parameter_pos (hw : t.Shifted w) (hlength : w.memory.newtonLength = 0) :
    0 < w.parameter := by
  rcases hw.parameter with hpos | ⟨-, hnewton⟩
  · exact hpos
  · exact absurd hlength hnewton.ne'

theorem restart_ne_done (hlength : w.memory.newtonLength = 0) : (t.restart w).1 ≠ .done := by
  intro hdone
  obtain ⟨s, -, hpos, -⟩ | ⟨-, ⟨last, -, heq⟩ | heq⟩ := t.restart_cases w
  · exact hpos.ne' hlength
  · rw [heq, (t.hebden_next _).1] at hdone
    cases hdone
  · rw [heq] at hdone
    cases hdone

theorem shift_ne_done (hcount : ¬t.ceiling < w.memory.count + 1) : (t.shift w).1 ≠ .done := by
  intro hdone
  obtain ⟨hgiven, -⟩ | ⟨-, a, -, ⟨l, -, heq⟩ | ⟨e, -, heq⟩⟩ := t.shift_cases w
  · exact hcount hgiven
  · rw [heq] at hdone
    cases hdone
  · rw [heq] at hdone
    cases hdone

theorem update_parameter (hdone : (t.update w).1 = .done) :
    (t.update w).2.parameter = w.parameter := by
  obtain ⟨-, heq⟩ | ⟨-, heq | heq⟩ := t.update_cases w
  · rw [heq]
  · rw [heq] at hdone
    cases hdone
  · rw [heq, (t.hebden_next _).1] at hdone
    cases hdone

theorem transition_lifts (hv : t.Valid) {phase : Phase} (hw : t.Holds phase w)
    (hphase : phase ≠ .freshStart ∧ phase ≠ .tryNewton ∧ phase ≠ .done)
    (hlength : w.memory.newtonLength = 0) (hdone : (t.transition phase w).1 = .done) :
    0 < (t.transition phase w).2.parameter := by
  cases phase with
  | freshStart => exact absurd rfl hphase.1
  | tryNewton => exact absurd rfl hphase.2.1
  | done => exact absurd rfl hphase.2.2
  | bracket => cases hdone
  | restart => exact absurd hdone (restart_ne_done hlength)
  | shift =>
    obtain ⟨-, -, hcount⟩ := hw
    refine absurd hdone (shift_ne_done ?_)
    have hlimit := hv.limit_pos
    have heq := hv.ceiling_eq
    omega
  | solve =>
    obtain ⟨l, hfactor, hl⟩ := Shifted.factor hw
    obtain ⟨w', hnext, -, -, hparameter, -⟩ := solve_spec hfactor hl
    have hkept : (t.transition .solve w).2 = w' := by
      rcases hnext with hnext | ⟨hnext, -⟩ | hnext <;> rw [transition, hnext]
    rw [hkept, hparameter]
    exact Shifted.parameter_pos hw hlength
  | checkSpecial =>
    obtain ⟨hw, hs, hshort⟩ := hw
    obtain ⟨l, hfactor, hl⟩ := hw.factor
    rcases checkSpecial_spec hfactor hl hs hshort with
      ⟨w', hnext, -, -, -, hparameter, -⟩ | hnext | ⟨v, -, hnext⟩
    · rw [transition, hnext, hparameter]
      exact hw.parameter_pos hlength
    · rw [transition, hnext] at hdone
      cases hdone
    · rw [transition, hnext] at hdone
      cases hdone
  | update =>
    change 0 < (t.update w).2.parameter
    rw [update_parameter hdone]
    exact hw.1.parameter_pos hlength

theorem restart_newton (hfits : t.newtonFits { w.memory with count := 0 } = true)
    (hnewton : w.memory.newton = some s) : t.restart w = (.done, { w with
      memory := { w.memory with count := 0 }
      step := s
      parameter := 0
      length := w.memory.newtonLength
      energy := 2 * w.memory.newtonReduction }) := by
  unfold restart
  dsimp only
  rw [if_pos hfits, hnewton]

theorem transition_ne_freshStart {phase : Phase} (hphase : phase ≠ .freshStart) :
    (t.transition phase w).1 ≠ .freshStart ∧ (t.transition phase w).1 ≠ .tryNewton := by
  refine ⟨(t.transition_later phase w).1, fun heq => ?_⟩
  have hmem := t.transition_mem phase w
  rw [heq] at hmem
  cases phase <;> simp_all [Phase.followers]

end StepTask

variable {c : Config ℝ} {h : Symmetric ℝ n} {g d s v : Vector ℝ n} {m : StepMemory ℝ n}
  {radius : ℝ}

theorem StepMemory.HasNewton.definite (hm : m.HasNewton (h.diagonallyScaled d) s)
    (hdef : (h.diagonallyScaled d).matrix.PosDef) :
    (StepTask.ofModel h g d radius c).Definite s .restart (.start m) :=
  ⟨⟨⟨rfl, rfl⟩, hm.reduction_nonneg hdef⟩, hm⟩

theorem StepMemory.definite_start (hdef : (h.diagonallyScaled d).matrix.PosDef)
    (hm : m.isFresh = false → m.HasNewton (h.diagonallyScaled d) s) :
    (StepTask.ofModel h g d radius c).Definite s
      (if m.isFresh then .freshStart else .restart) (.start m) := by
  cases hfresh : m.isFresh with
  | true => exact ⟨rfl, rfl⟩
  | false => exact (hm hfresh).definite hdef

section

variable (hdef : (h.diagonallyScaled d).matrix.PosDef) (hclear : (h.diagonallyScaled d).Clear)
  (hs : (h.diagonallyScaled d).matrix *ᵥ coords s = -coords (overEach g d))
include hdef hclear hs

theorem trustStep_hasNewton (hm : m.isFresh = false → m.HasNewton (h.diagonallyScaled d) s) :
    (trustStep c h g d radius m).2.HasNewton (h.diagonallyScaled d) s := by
  have hrun := StepTask.run_hasNewton (t := StepTask.ofModel h g d radius c) hdef hclear hs
    (StepMemory.definite_start hdef hm)
  unfold trustStep
  dsimp only
  exact (StepTask.newtonPart_finish _ _).trans hrun

theorem StepMemory.Serves.hasNewton (hm : m.Serves c h g d) (hstale : m.isFresh = false) :
    m.HasNewton (h.diagonallyScaled d) s :=
  hm.keeps (fun _ _ ih _ => trustStep_hasNewton hdef hclear hs ih) hstale

end

theorem trustStep_restarted (hstale : m.isFresh = false) (hm : m.HasNewton (h.diagonallyScaled d) s)
    (hpos : 0 < Geometry.norm s) (hshort : Geometry.norm s - radius ≤ c.phiMax * radius) :
    (trustStep c h g d radius m).1 = .newton h g d s := by
  have hfits : (StepTask.ofModel h g d radius c).newtonFits { m with count := 0 } = true := by
    apply decide_eq_true
    change 0 < m.newtonLength ∧ m.newtonLength - radius ≤ c.phiMax * radius
    rw [hm.length]
    exact ⟨hpos, hshort⟩
  have hrestart := StepTask.restart_newton (w := .start m) hfits hm.newton
  have hnext : ¬Phase.restart = Phase.done := by decide
  have henergy (a : ℝ) : 2 * (1 / 2 * a) = a := by ring
  unfold trustStep
  dsimp only
  rw [hstale, if_neg (by decide), StepTask.run, dif_neg hnext, StepTask.transition, hrestart,
    StepTask.run, dif_pos rfl]
  unfold StepTask.finish Trial.newton StepWork.start
  simp only [Bool.false_eq_true, if_false, hm.length, hm.reduction, StepTask.ofModel, inner_eq,
    henergy, zero_mul, add_zero]

namespace StepTask

/-- What holds before each phase of a call that is no fresh start, for a model whose Newton step
has no length. -/
structure Lifting (t : StepTask ℝ n) (phase : Phase) (w : StepWork ℝ n) : Prop where
  holds : t.Holds phase w
  definite : t.Definite (Vector.replicate n 0) phase w
  stale : phase ≠ .freshStart ∧ phase ≠ .tryNewton
  lifted : phase = .done → 0 < w.parameter

theorem Definite.hasNewton {t : StepTask ℝ n} {phase : Phase} {w : StepWork ℝ n}
    (hw : t.Definite s phase w) (hphase : phase ≠ .freshStart ∧ phase ≠ .tryNewton) :
    w.memory.HasNewton t.hessian s := by
  cases phase with
  | freshStart => exact absurd rfl hphase.1
  | tryNewton => exact absurd rfl hphase.2
  | bracket | restart | shift | solve | checkSpecial | update | done => exact hw.2

theorem transition_lifting {t : StepTask ℝ n} (hv : t.Valid) (hdef : t.hessian.matrix.PosDef)
    (hclear : ∀ l, t.hessian.cholesky = .ok l →
      singularFactor * t.largestEntry < l.smallestSingular.sigma * l.smallestSingular.sigma)
    (hg : coords t.gradient = 0) {phase : Phase} {w : StepWork ℝ n} (hw : t.Lifting phase w) :
    t.Lifting (t.transition phase w).1 (t.transition phase w).2 := by
  have hs : t.hessian.matrix *ᵥ coords (Vector.replicate n 0) = -coords t.gradient := by
    rw [coords_replicate_zero, mulVec_zero, hg, neg_zero]
  refine ⟨transition_holds hv hw.holds, transition_definite hdef hclear hs hw.definite,
    transition_ne_freshStart hw.stale.1, fun hdone => ?_⟩
  by_cases hphase : phase = .done
  · subst hphase
    exact hw.lifted rfl
  · have hlength := (hw.definite.hasNewton hw.stale).length.trans norm_replicate_zero
    exact transition_lifts hv hw.holds ⟨hw.stale.1, hw.stale.2, hphase⟩ hlength hdone

end StepTask

theorem Solves.eq_zero {a : ℝ} (hs : Solves h g a s) (hg : coords g = 0) :
    s = Vector.replicate n 0 := by
  refine hs.unique ⟨hs.posDef, ?_⟩
  rw [coords_replicate_zero, mulVec_zero, hg, neg_zero]

theorem StepTask.not_stretched {t : StepTask ℝ n} {w : StepWork ℝ n}
    (hdef : t.hessian.matrix.PosDef) (hg : coords t.gradient = 0) (hr : 0 < t.radius)
    (hloss : t.loss ≤ 1) (hparameter : 0 < w.parameter) : ¬t.Stretched w := by
  rintro ⟨-, hreaches, s, v, hs, hstep, hsmall⟩
  rw [hs.eq_zero hg, coords_replicate_zero, zero_add] at hstep
  rw [hs.eq_zero hg, coords_replicate_zero, zero_dotProduct, zero_add, ← hstep,
    Symmetric.dotProduct_addToDiagonal, hreaches] at hsmall
  have hsquare : 0 < t.radius * t.radius := mul_pos hr hr
  have hne : coords w.step ≠ 0 := by
    intro hzero
    rw [hzero, zero_dotProduct] at hreaches
    exact hsquare.ne hreaches
  have hform := (Symmetric.posDef_iff _).mp hdef _ hne
  have hgain : t.loss * (w.parameter * t.radius * t.radius) ≤ w.parameter * t.radius * t.radius :=
    mul_le_of_le_one_left (mul_pos (mul_pos hparameter hr) hr).le hloss
  linarith

/-- With a gradient of zero the trial of a call that is no fresh start is the zero one, but for
the shift it reports. -/
theorem trustStep_shifted (hc : c.validate n = .ok ()) (hlimit : c.hebdenIterationLimit < 2 ^ 30)
    (hloss : stretchLoss c ≤ 1) (hr : 0 < radius) (hdef : (h.diagonallyScaled d).matrix.PosDef)
    (hclear : (h.diagonallyScaled d).Clear) (hg : coords (overEach g d) = 0)
    (hm : m.Serves c h g d) (hstale : m.isFresh = false) :
    ∃ a, 0 < a ∧ (trustStep c h g d radius m).1 = { Trial.zero n with parameter := a } := by
  have hs : (h.diagonallyScaled d).matrix *ᵥ coords (Vector.replicate n 0) =
      -coords (overEach g d) := by
    rw [coords_replicate_zero, mulVec_zero, hg, neg_zero]
  have hv := valid_ofModel (h := h) (g := g) (d := d) hc hlimit hr
  have hnewton := hm.hasNewton hdef hclear hs hstale
  have hfits := hm.fits hc hlimit
  have hended := ended_of_fits hc hlimit hfits hr
  have hstart : (StepTask.ofModel h g d radius c).Lifting .restart (.start m) :=
    ⟨⟨⟨rfl, rfl⟩, hfits hstale⟩, hnewton.definite hdef, by decide, nofun⟩
  have hdone := StepTask.run_invariant _ (StepTask.transition_lifting hv hdef hclear hg) hstart
  have hloss' := loss_ofModel (h := h) (g := g) (d := d) (c := c) radius
  unfold trustStep
  dsimp only
  rw [hstale, if_neg (by decide)] at hended ⊢
  generalize (StepTask.ofModel h g d radius c).run _ _ = w at hended hdone ⊢
  have hparameter := hdone.lifted rfl
  have hnewton' := hdone.definite.hasNewton hdone.stale
  have hspecial : w.special = false := by
    rw [Bool.eq_false_iff]
    intro hspecial
    rw [← hloss'] at hloss
    exact StepTask.not_stretched (t := StepTask.ofModel h g d radius c) hdef hg hr hloss
      hparameter (hended.special hspecial).2
  obtain ⟨-, hsolves, hlength, henergy⟩ := hended.plain hspecial
  have hstep := hsolves.eq_zero hg
  rw [hstep, norm_replicate_zero] at hlength
  rw [hstep, coords_replicate_zero, zero_dotProduct] at henergy
  have hreduction := hnewton'.reduction
  rw [coords_replicate_zero, zero_dotProduct, mul_zero] at hreduction
  refine ⟨w.parameter, hparameter, ?_⟩
  unfold StepTask.finish Trial.zero
  rw [hended.unstuck, hspecial, hstep, hlength, henergy, hreduction,
    hnewton'.length.trans norm_replicate_zero, inner_eq, coords_replicate_zero,
    dotProduct_zero]
  simp [overEach_replicate_zero]

/-- A model that is clearly convex and whose Newton step the radius allows is answered with that
step by every call, the first one or a later one. The exception is a later call with a gradient
of zero, which answers with the same step and a shift. -/
theorem trustStep_newton_again (hd : ∀ i : Fin n, 0 < d[i]) (hdef : h.matrix.PosDef)
    (hclear : (h.diagonallyScaled d).Clear) (hm : m.Serves c h g d)
    (hv : coords v = -(h.matrix⁻¹ *ᵥ coords g))
    (hshort : Geometry.norm (timesEach v d) ≤ (1 + c.phiMax) * radius) :
    let trial := (trustStep c h g d radius m).1
    (m.isFresh = true ∨ coords g ≠ 0 → trial.Whole h d v ∧
      trial.reduction = 1 / 2 * (coords g ⬝ᵥ h.matrix⁻¹ *ᵥ coords g)) ∧
    (m.isFresh = false → coords g = 0 → c.validate n = .ok () →
      c.hebdenIterationLimit < 2 ^ 30 → stretchLoss c ≤ 1 → 0 < radius →
      ∃ a, 0 < a ∧ trial = { Trial.zero n with parameter := a }) := by
  have hsolves : h.matrix *ᵥ coords v = -coords g := by
    rw [hv, mulVec_neg, mulVec_mulVec,
      mul_nonsing_inv _ ((isUnit_iff_isUnit_det _).mp hdef.isUnit), one_mulVec]
  have hdef' := posDef_diagonallyScaled hd hdef
  have hscaled := diagonallyScaled_mulVec_timesEach hd hsolves
  have hexcess : Geometry.norm (timesEach v d) - radius ≤ c.phiMax * radius := by linarith
  refine ⟨fun hcase => ?_, fun hstale hg hc hlimit hloss hr => ?_⟩
  · have hwhole : (trustStep c h g d radius m).1.Whole h d v := by
      cases hfresh : m.isFresh with
      | true => exact trustStep_whole hd hfresh hdef hclear hsolves hexcess
      | false =>
        have hg : coords g ≠ 0 := by
          rcases hcase with hfresh' | hg
          · rw [hfresh] at hfresh'
            cases hfresh'
          · exact hg
        -- With a gradient the Newton step has a length, by which the memory knows that it was
        -- found.
        have hpos : 0 < Geometry.norm (timesEach v d) := by
          apply (norm_nonneg _).lt_of_ne'
          intro hzero
          apply hg
          rw [norm_eq_zero] at hzero
          rw [hzero, mulVec_zero] at hscaled
          rw [← mul_coords_overEach hd g, neg_eq_zero.mp hscaled.symm, mul_zero]
        rw [trustStep_restarted hfresh (hm.hasNewton hdef' hclear hscaled hfresh) hpos hexcess]
        exact whole_newton hd hsolves
    refine ⟨hwhole, ?_⟩
    rw [hwhole.reduction, hsolves, hv]
    simp only [neg_dotProduct, dotProduct_neg, neg_neg]
    rw [dotProduct_comm]
  · apply trustStep_shifted hc hlimit hloss hr hdef' hclear _ hm hstale
    rw [coords_overEach, hg]
    exact funext fun i => zero_div _

theorem coords_one : coords #v[(1 : ℝ)] = 1 := by
  funext i
  fin_cases i
  rfl

theorem one_scale_pos (i : Fin 1) : 0 < (#v[1] : Vector ℝ 1)[i] := by
  fin_cases i
  exact one_pos

theorem parabola_matrix : (Symmetric.ofFn fun _ _ => 1 : Symmetric ℝ 1).matrix = 1 := by
  ext i j
  fin_cases i
  fin_cases j
  simp [Symmetric.matrix_apply, Symmetric.get_ofFn]

theorem parabola_scaled :
    ((Symmetric.ofFn fun _ _ => 1 : Symmetric ℝ 1).diagonallyScaled #v[1]).matrix = 1 := by
  ext i j
  fin_cases i
  fin_cases j
  norm_num [Symmetric.matrix_diagonallyScaled, Symmetric.get_ofFn]

theorem parabola_posDef : (Symmetric.ofFn fun _ _ => 1 : Symmetric ℝ 1).matrix.PosDef := by
  rw [Symmetric.posDef_iff, parabola_matrix]
  intro v hv
  rw [one_mulVec]
  exact dotProduct_self_pos hv

theorem parabola_clear :
    ((Symmetric.ofFn fun _ _ => 1 : Symmetric ℝ 1).diagonallyScaled #v[1]).Clear := by
  have hmax :
      ((Symmetric.ofFn fun _ _ => 1 : Symmetric ℝ 1).diagonallyScaled #v[1]).maxAbs ≤ 1 := by
    apply Symmetric.maxAbs_le zero_le_one
    intro i j
    rw [← Symmetric.matrix_apply, parabola_scaled]
    fin_cases i
    fin_cases j
    simp
  apply Symmetric.clear_of_convex one_pos one_pos
  · intro v
    rw [parabola_scaled, one_mulVec, one_mul]
  · have hfactor : (0 : ℝ) ≤ singularFactor := mul_nonneg (by norm_num) epsilon_pos.le
    exact (mul_le_of_le_one_right hfactor hmax).trans_lt (singularFactor_lt.trans (by norm_num))

/-- A parabola asked for its step with two radii, beside its minimum and at it. -/
theorem trustStep_newton_again_parabola :
    let h : Symmetric ℝ 1 := .ofFn fun _ _ => 1
    (trustStep Config.default h #v[1] #v[1] 2
      (trustStep Config.default h #v[1] #v[1] 1 .new).2).1.Whole h #v[1] #v[-1] ∧
    ∃ a, 0 < a ∧ (trustStep Config.default h #v[0] #v[1] 2
      (trustStep Config.default h #v[0] #v[1] 1 .new).2).1 =
        { Trial.zero 1 with parameter := a } := by
  intro h
  have hc : (Config.default : Config ℝ).validate 1 = .ok () := Config.validate_default 1
  have hserves (g : Vector ℝ 1) : StepMemory.Serves Config.default h g #v[1]
      (trustStep Config.default h g #v[1] 1 .new).2 := .after (.fresh rfl) one_pos
  have hnewton (g v : ℝ) (hv : v = -g) : coords #v[v] = -(h.matrix⁻¹ *ᵥ coords #v[g]) := by
    rw [parabola_matrix, inv_one, one_mulVec, hv]
    funext i
    fin_cases i
    rfl
  have hshort (v : ℝ) (hv : |v| ≤ 1) :
      Geometry.norm (timesEach #v[v] #v[1]) ≤ (1 + Config.default.phiMax) * (2 : ℝ) := by
    have hlength : Geometry.norm (timesEach #v[v] #v[1]) = |v| := by
      rw [norm_eq, coords_timesEach]
      simp [dotProduct, coords, Real.sqrt_mul_self_eq_abs]
    rw [hlength]
    norm_num [Config.default]
    linarith
  refine ⟨?_, ?_⟩
  · apply And.left
    apply (trustStep_newton_again one_scale_pos parabola_posDef parabola_clear (hserves #v[1])
      (hnewton 1 (-1) rfl) (hshort (-1) (by norm_num))).1
    refine .inr fun hzero => ?_
    exact one_ne_zero (congrFun hzero 0)
  · have hlimit : (Config.default : Config ℝ).hebdenIterationLimit < 2 ^ 30 := by
      norm_num [Config.default]
    apply (trustStep_newton_again one_scale_pos parabola_posDef parabola_clear (hserves #v[0])
      (hnewton 0 0 neg_zero.symm) (hshort 0 (by norm_num))).2
      (trustStep_stale _ _ _ _ _ _) _ hc hlimit _ two_pos
    · funext i
      fin_cases i
      rfl
    · exact stretchLoss_le_one hc (by norm_num [Config.default])

end LeastSquares
