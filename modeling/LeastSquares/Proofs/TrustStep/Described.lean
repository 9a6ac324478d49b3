import LeastSquares.Proofs.TrustStep.Restarted

namespace LeastSquares

open Matrix

variable {n : Nat}

/-- The memory holds no Newton step: its model is not definite, or was taken for singular. -/
def StepMemory.Unsolved (m : StepMemory ℝ n) : Prop := m.newtonReduction = 0 ∧ m.newtonLength ≤ 0

theorem StepMemory.Unsolved.congr {m m' : StepMemory ℝ n} (hm : m.Unsolved)
    (h : m'.newtonPart = m.newtonPart) : m'.Unsolved := by
  have hlength : m'.newtonLength = m.newtonLength := congrArg (·.2.1) h
  have hreduction : m'.newtonReduction = m.newtonReduction := congrArg (·.2.2) h
  rw [Unsolved, hreduction, hlength]
  exact hm

theorem posDef_of_diagonallyScaled {h : Symmetric ℝ n} {d : Vector ℝ n}
    (hd : ∀ i : Fin n, 0 < d[i]) (hdef : (h.diagonallyScaled d).matrix.PosDef) :
    h.matrix.PosDef := by
  rw [Symmetric.posDef_iff] at hdef ⊢
  intro v hv
  have hne : coords d * v ≠ 0 := by
    intro hzero
    apply hv
    funext i
    exact (mul_eq_zero.mp (congrFun hzero i)).resolve_left (coords_ne_zero_of_pos hd i)
  rw [← dotProduct_diagonallyScaled hd]
  exact hdef _ hne

namespace StepTask

/-- What holds before each phase of a call for a model of which no Newton step is known. -/
structure Lacking (t : StepTask ℝ n) (phase : Phase) (w : StepWork ℝ n) : Prop where
  gaining : t.Gaining phase w
  unsolved : phase ≠ .freshStart → w.memory.Unsolved

variable {t : StepTask ℝ n} {w : StepWork ℝ n} {phase : Phase}

theorem newtonReduction_shift :
    (t.shift w).2.memory.newtonReduction = w.memory.newtonReduction := by
  obtain ⟨-, heq⟩ | ⟨-, a, -, ⟨l, -, heq⟩ | ⟨e, -, heq⟩⟩ := t.shift_cases w
  · rw [heq]
  · rw [heq]
  · have hreduction (m : StepMemory ℝ n) : m.widen.newtonReduction = m.newtonReduction :=
      congrArg (·.2.2) m.newtonPart_widen
    rw [heq, hreduction]

theorem tryNewton_unsolved
    (hlacking : ∀ l, t.hessian.cholesky = .ok l →
      l.smallestSingular.sigma * l.smallestSingular.sigma ≤ singularFactor * t.largestEntry)
    (hw : w.memory.Unsolved) : (t.tryNewton w).2.memory.Unsolved := by
  obtain ⟨e, he, heq⟩ | ⟨l, hl, ⟨-, heq⟩ | ⟨hclear, -⟩⟩ := t.tryNewton_cases w
  · rw [heq]
    refine ⟨hw.1, ?_⟩
    dsimp only
    rw [neg_neg]
    exact rayleigh_nonpos he
  · rw [heq]
    exact ⟨rfl, neg_nonpos.mpr (mul_self_nonneg _)⟩
  · exact absurd (hlacking l hl) (not_le.mpr hclear)

theorem transition_lacking
    (hlacking : ∀ l, t.hessian.cholesky = .ok l →
      l.smallestSingular.sigma * l.smallestSingular.sigma ≤ singularFactor * t.largestEntry)
    (hw : t.Lacking phase w) : t.Lacking (t.transition phase w).1 (t.transition phase w).2 := by
  refine ⟨transition_gaining hw.gaining, fun _ => ?_⟩
  cases phase with
  | freshStart => exact ⟨rfl, le_rfl⟩
  | tryNewton => exact tryNewton_unsolved hlacking (hw.unsolved (by decide))
  | shift =>
    have hm := hw.unsolved (by decide)
    obtain hkept | ⟨-, hlength⟩ := newtonPart_shift (t := t) hw.gaining.2.low
    · exact hm.congr hkept
    · exact ⟨newtonReduction_shift.trans hm.1, hlength⟩
  | bracket | restart | solve | checkSpecial | update | done =>
    exact (hw.unsolved (by decide)).congr
      (t.newtonPart_transition w (by decide) (by decide) (by decide))

theorem newton_finish : (t.finish w).1.newtonReduction = w.memory.newtonReduction ∧
    (t.finish w).1.newtonLength = w.memory.newtonLength := by
  rw [finish]
  split
  · exact ⟨rfl, rfl⟩
  · exact ⟨rfl, rfl⟩

theorem Ended.predicted_nonpos (hw : t.Ended w) (hloss : t.loss ≤ 1) :
    predicted t.hessian t.gradient (coords w.step) ≤ 0 := by
  cases hspecial : w.special with
  | true =>
    obtain ⟨hparameter, hstretched⟩ := hw.special hspecial
    exact hstretched.reduction_nonneg hparameter.le hloss
  | false =>
    obtain ⟨hparameter, hsolves, -⟩ := hw.plain hspecial
    rw [← predicted_zero t.hessian t.gradient]
    apply hsolves.predicted_le hparameter
    rw [dotProduct_zero]
    exact dotProduct_self_nonneg _

end StepTask

variable {c : Config ℝ} {h : Symmetric ℝ n} {g d : Vector ℝ n} {m : StepMemory ℝ n} {radius : ℝ}

theorem newton_trustStep (c : Config ℝ) (h : Symmetric ℝ n) (g d : Vector ℝ n) (radius : ℝ)
    (m : StepMemory ℝ n) : (trustStep c h g d radius m).1.newtonReduction =
      (trustStep c h g d radius m).2.newtonReduction ∧
    (trustStep c h g d radius m).1.newtonLength =
      (trustStep c h g d radius m).2.newtonLength := by
  have hkept := StepTask.newtonPart_finish (StepTask.ofModel h g d radius c)
    ((StepTask.ofModel h g d radius c).run (if m.isFresh then .freshStart else .restart)
      (.start m))
  rw [trustStep, StepTask.newton_finish.1, StepTask.newton_finish.2]
  exact ⟨(congrArg (·.2.2) hkept).symm, (congrArg (·.2.1) hkept).symm⟩

section

variable (hlacking : ∀ l, (h.diagonallyScaled d).cholesky = .ok l →
  l.smallestSingular.sigma * l.smallestSingular.sigma ≤
    singularFactor * (h.diagonallyScaled d).maxAbs)
include hlacking

theorem trustStep_unsolved (hm : m.isFresh = false → m.Unsolved) :
    (trustStep c h g d radius m).2.Unsolved := by
  have hstart : (StepTask.ofModel h g d radius c).Lacking
      (if m.isFresh then .freshStart else .restart) (.start m) := by
    cases hfresh : m.isFresh with
    | true => exact ⟨⟨rfl, rfl⟩, fun hphase => absurd rfl hphase⟩
    | false => exact ⟨⟨⟨rfl, rfl⟩, (hm hfresh).1.ge⟩, fun _ => hm hfresh⟩
  have hdone := StepTask.run_invariant _
    (StepTask.transition_lacking (t := StepTask.ofModel h g d radius c) hlacking) hstart
  rw [trustStep]
  exact (hdone.unsolved (by decide)).congr (StepTask.newtonPart_finish _ _)

theorem StepMemory.Serves.unsolved (hm : m.Serves c h g d) (hstale : m.isFresh = false) :
    m.Unsolved :=
  hm.keeps (fun _ _ ih _ => trustStep_unsolved hlacking ih) hstale

end

theorem StepMemory.Serves.newton_of_clear (hm : m.Serves c h g d) (hstale : m.isFresh = false)
    (hd : ∀ i : Fin n, 0 < d[i]) (hdef : h.matrix.PosDef) (hclear : (h.diagonallyScaled d).Clear)
    {v : Vector ℝ n} (hv : coords v = -(h.matrix⁻¹ *ᵥ coords g)) :
    m.newtonReduction = 1 / 2 * (coords g ⬝ᵥ h.matrix⁻¹ *ᵥ coords g) ∧
      m.newtonLength = Geometry.norm (timesEach v d) := by
  have hsolves : h.matrix *ᵥ coords v = -coords g := by
    rw [hv, mulVec_neg, mulVec_mulVec, mul_nonsing_inv _ ((isUnit_iff_isUnit_det _).mp hdef.isUnit),
      one_mulVec]
  have hnewton := hm.hasNewton (posDef_diagonallyScaled hd hdef) hclear
    (diagonallyScaled_mulVec_timesEach hd hsolves) hstale
  refine ⟨?_, hnewton.length⟩
  rw [hnewton.reduction, coords_timesEach, mul_comm (coords v), dotProduct_diagonallyScaled hd,
    hsolves, hv, neg_dotProduct_neg, dotProduct_comm]

theorem lacking_of_not (hd : ∀ i : Fin n, 0 < d[i])
    (hnone : ¬(h.matrix.PosDef ∧ (h.diagonallyScaled d).Clear)) (l : Lower ℝ n)
    (hl : (h.diagonallyScaled d).cholesky = .ok l) :
    l.smallestSingular.sigma * l.smallestSingular.sigma ≤
      singularFactor * (h.diagonallyScaled d).maxAbs := by
  by_contra hclear
  refine hnone ⟨posDef_of_diagonallyScaled hd (Symmetric.posDef_of_cholesky hl), ?_⟩
  intro l' hl'
  obtain rfl := Except.ok.inj (hl.symm.trans hl')
  exact not_le.mp hclear

/-- A trial tells the length, the slope and the predicted reduction of the step it holds, and
those of the Newton step where the model has one that is not taken for singular. -/
theorem trustStep_described (hc : c.validate n = .ok ()) (hlimit : c.hebdenIterationLimit < 2 ^ 30)
    (hd : ∀ i : Fin n, 0 < d[i]) (hm : m.Serves c h g d) (hr : 0 < radius) :
    let trial := (trustStep c h g d radius m).1
    trial.length = Geometry.norm (timesEach d trial.step) ∧
    trial.slope = coords g ⬝ᵥ coords trial.step ∧
    trial.reduction = -predicted h g (coords trial.step) ∧
    (stretchLoss c ≤ 1 → 0 ≤ trial.reduction) ∧
    (h.matrix.PosDef ∧ (h.diagonallyScaled d).Clear →
      trial.newtonReduction = 1 / 2 * (coords g ⬝ᵥ h.matrix⁻¹ *ᵥ coords g) ∧
      ∃ v, coords v = -(h.matrix⁻¹ *ᵥ coords g) ∧
        trial.newtonLength = Geometry.norm (timesEach v d)) ∧
    (¬(h.matrix.PosDef ∧ (h.diagonallyScaled d).Clear) →
      trial.newtonReduction = 0 ∧ trial.newtonLength ≤ 0) := by
  intro trial
  have hfits := hm.fits hc hlimit
  have hended := ended_of_fits hc hlimit hfits hr
  obtain ⟨hstep, -⟩ := hended.finish_step
  obtain ⟨hslope, hreduction⟩ := hended.finish_model
  have hscaled : coords d * coords trial.step = coords ((StepTask.ofModel h g d radius c).run
      (if m.isFresh then .freshStart else .restart) (.start m)).step :=
    (congrArg (coords d * coords ·) hstep).trans (mul_coords_overEach hd _)
  obtain ⟨hnewtonReduction, hnewtonLength⟩ := newton_trustStep c h g d radius m
  have hafter := StepMemory.Serves.after hm hr
  refine ⟨trustStep_length hc hlimit hd hfits hr, ?_, ?_, fun hloss => ?_, ?_, ?_⟩
  · rw [← overEach_dotProduct hd, hscaled]
    exact hslope
  · rw [← predicted_diagonallyScaled hd, hscaled]
    exact hreduction
  · rw [← loss_ofModel (h := h) (g := g) (d := d) radius] at hloss
    exact hreduction.ge.trans' (neg_nonneg.mpr (hended.predicted_nonpos hloss))
  · rintro ⟨hdef, hclear⟩
    have hinverse : coords (Vector.ofFn (-(h.matrix⁻¹ *ᵥ coords g))) =
        -(h.matrix⁻¹ *ᵥ coords g) := by
      funext i
      simp [coords]
    obtain ⟨hgain, hlong⟩ :=
      hafter.newton_of_clear (trustStep_stale ..) hd hdef hclear hinverse
    exact ⟨hnewtonReduction.trans hgain, _, hinverse, hnewtonLength.trans hlong⟩
  · intro hnone
    have hunsolved := hafter.unsolved (lacking_of_not hd hnone) (trustStep_stale ..)
    exact ⟨hnewtonReduction.trans hunsolved.1, hnewtonLength.trans_le hunsolved.2⟩

/-- A parabola whose Newton step of length one is too long for two radii in a row. -/
theorem trustStep_described_parabola :
    let h : Symmetric ℝ 1 := .ofFn fun _ _ => 1
    let trial := (trustStep Config.default h #v[1] #v[1] (1 / 4)
      (trustStep Config.default h #v[1] #v[1] (1 / 2) .new).2).1
    trial.length = Geometry.norm (timesEach #v[1] trial.step) ∧
    trial.slope = coords #v[1] ⬝ᵥ coords trial.step ∧
    trial.reduction = -predicted h #v[1] (coords trial.step) ∧ 0 ≤ trial.reduction ∧
    trial.newtonReduction = 1 / 2 ∧ trial.newtonLength = 1 := by
  intro h trial
  have hc : (Config.default : Config ℝ).validate 1 = .ok () := Config.validate_default 1
  have hloss : stretchLoss (Config.default : Config ℝ) ≤ 1 :=
    stretchLoss_le_one hc (by norm_num [Config.default])
  have hserves : StepMemory.Serves Config.default h #v[1] #v[1]
      (trustStep Config.default h #v[1] #v[1] (1 / 2) .new).2 := .after (.fresh rfl) (by norm_num)
  have hr : (0 : ℝ) < 1 / 4 := by norm_num
  obtain ⟨hlength, hslope, hreduction, hnonneg, hnewton, -⟩ :=
    trustStep_described hc default_hebdenLimit one_scale_pos hserves hr
  obtain ⟨hnewtonReduction, v, hv, hnewtonLength⟩ := hnewton ⟨parabola_posDef, parabola_clear⟩
  rw [parabola_matrix, inv_one, one_mulVec] at hnewtonReduction hv
  rw [coords_one] at hnewtonReduction hv
  refine ⟨hlength, hslope, hreduction, hnonneg hloss, hnewtonReduction.trans ?_,
    hnewtonLength.trans ?_⟩
  · simp
  · rw [norm_eq, coords_timesEach, hv, coords_one]
    simp

end LeastSquares
