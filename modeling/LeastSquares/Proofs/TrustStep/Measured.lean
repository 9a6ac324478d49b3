import LeastSquares.Proofs.TrustStep.Kept

namespace LeastSquares

open Matrix

variable {n : Nat}

/-- A length of the Newton step in the memory is that of the step in the memory. -/
def StepMemory.Measures (m : StepMemory ℝ n) : Prop :=
  0 < m.newtonLength → ∃ s, m.newton = some s ∧ m.newtonLength = Geometry.norm s

theorem StepMemory.Measures.congr {m m' : StepMemory ℝ n} (hm : m.Measures)
    (h : m'.newtonPart = m.newtonPart) : m'.Measures := by
  have hnewton : m'.newton = m.newton := congrArg Prod.fst h
  have hlength : m'.newtonLength = m.newtonLength := congrArg (·.2.1) h
  unfold Measures
  rw [hnewton, hlength]
  exact hm

namespace StepTask

variable (t : StepTask ℝ n)

/-- A call was given up, or its step has the length it tells. A step of no length gains
nothing, unless the radius is zero. -/
def Told (w : StepWork ℝ n) : Prop :=
  w.stuck = true ∨ w.length = Geometry.norm w.step ∧
    (0 < t.radius → w.length = 0 → w.special = false ∧ w.energy = 0)

/-- What holds before each phase, whatever the model and the limit of shifts. -/
structure Measured (phase : Phase) (w : StepWork ℝ n) : Prop where
  gaining : t.Gaining phase w
  memory : phase ≠ .freshStart → w.memory.Measures
  told : phase = .done → t.Told w

variable {t} {w : StepWork ℝ n}

theorem Stepped.told (hs : t.Stepped w) (hspecial : w.special = false) : t.Told w := by
  refine .inr ⟨hs.length_eq, fun _ hzero => ⟨hspecial, ?_⟩⟩
  rw [hs.length_eq, norm_eq_zero] at hzero
  rw [hs.energy_eq, hzero, zero_dotProduct]

theorem Stretched.told (hs : t.Stretched w) : t.Told w := by
  refine .inr ⟨hs.length_eq, fun hr hzero => ?_⟩
  have hreaches := hs.reaches
  rw [hs.length_eq, norm_eq_zero] at hzero
  rw [hzero, zero_dotProduct] at hreaches
  exact absurd (mul_self_eq_zero.mp hreaches.symm) hr.ne'

theorem tryNewton_measures : (t.tryNewton w).2.memory.Measures := by
  obtain ⟨e, he, heq⟩ | ⟨l, -, ⟨-, heq⟩ | ⟨-, s, energy, -, -, ⟨-, heq⟩ | ⟨-, heq⟩⟩⟩ :=
    t.tryNewton_cases w
  · intro hpos
    have hnonpos := rayleigh_nonpos he
    rw [heq] at hpos
    dsimp only at hpos
    linarith
  · intro hpos
    have hsquare := mul_self_nonneg l.smallestSingular.sigma
    rw [heq] at hpos
    dsimp only at hpos
    linarith
  · rw [heq]
    exact fun _ => ⟨_, rfl, rfl⟩
  · rw [heq]
    exact fun _ => ⟨_, rfl, rfl⟩

theorem transition_measures {phase : Phase} (hw : t.Measured phase w) :
    (t.transition phase w).2.memory.Measures := by
  by_cases hfresh : phase = .freshStart
  · subst hfresh
    intro hpos
    exact absurd hpos (lt_irrefl 0)
  have hm := hw.memory hfresh
  by_cases hnewton : phase = .tryNewton
  · subst hnewton
    exact tryNewton_measures
  by_cases hshift : phase = .shift
  · subst hshift
    rcases newtonPart_shift (t := t) hw.gaining.2.low with hkept | ⟨-, hnonpos⟩
    · exact hm.congr hkept
    · exact fun hpos => absurd hpos (not_lt.mpr hnonpos)
  · exact hm.congr (t.newtonPart_transition w hfresh hnewton hshift)

theorem told_tryNewton (hspecial : w.special = false) (hdone : (t.tryNewton w).1 = .done) :
    t.Told (t.tryNewton w).2 := by
  obtain ⟨e, -, heq⟩ | ⟨l, -, ⟨-, heq⟩ | ⟨-, s, energy, -, henergy, ⟨-, heq⟩ | ⟨-, heq⟩⟩⟩ :=
    t.tryNewton_cases w
  · rw [heq] at hdone
    cases hdone
  · rw [heq] at hdone
    cases hdone
  · rw [heq]
    refine .inr ⟨rfl, fun _ hzero => ⟨hspecial, ?_⟩⟩
    dsimp only at hzero ⊢
    rw [henergy, norm_eq_zero.mp hzero, zero_dotProduct]
  · rw [heq] at hdone
    cases hdone

theorem told_restart (hm : w.memory.Measures) (hdone : (t.restart w).1 = .done) :
    t.Told (t.restart w).2 := by
  obtain ⟨s, hnewton, hpos, -, heq⟩ | ⟨-, ⟨last, -, heq⟩ | heq⟩ := t.restart_cases w
  · obtain ⟨s', hs', hlength⟩ := hm hpos
    obtain rfl : s = s' := Option.some.inj (hnewton.symm.trans hs')
    rw [heq]
    exact .inr ⟨hlength, fun _ hzero => absurd hzero hpos.ne'⟩
  · rw [heq, (t.hebden_next _).1] at hdone
    cases hdone
  · rw [heq] at hdone
    cases hdone

theorem told_shift (hdone : (t.shift w).1 = .done) : t.Told (t.shift w).2 := by
  obtain ⟨-, heq⟩ | ⟨-, a, -, ⟨l, -, heq⟩ | ⟨e, -, heq⟩⟩ := t.shift_cases w
  · rw [heq]
    exact .inl rfl
  · rw [heq] at hdone
    cases hdone
  · rw [heq] at hdone
    cases hdone

theorem told_transition {phase : Phase} (hw : t.Measured phase w)
    (hdone : (t.transition phase w).1 = .done) : t.Told (t.transition phase w).2 := by
  cases phase with
  | freshStart => cases hdone
  | tryNewton => exact told_tryNewton hw.gaining.1.1 hdone
  | bracket => cases hdone
  | restart => exact told_restart (hw.memory (by decide)) hdone
  | shift => exact told_shift hdone
  | solve =>
    obtain ⟨l, hfactor, hl⟩ := Positive.factor hw.gaining
    obtain ⟨w', hnext, hs, -, -, -, hspecial, -⟩ := solve_spec hfactor hl
    have hkept : (t.transition .solve w).2 = w' := by
      rcases hnext with hnext | ⟨hnext, -⟩ | hnext <;> rw [transition, hnext]
    rw [hkept]
    exact hs.told (hspecial.trans hw.gaining.plain.1)
  | checkSpecial =>
    obtain ⟨hpositive, hs, hshort⟩ := hw.gaining
    obtain ⟨l, hfactor, hl⟩ := hpositive.factor
    rcases checkSpecial_spec hfactor hl hs hshort with
      ⟨w', hnext, hstretched, -⟩ | hnext | ⟨v, -, hnext⟩
    · rw [transition, hnext]
      exact hstretched.told
    · rw [transition, hnext] at hdone
      cases hdone
    · rw [transition, hnext] at hdone
      cases hdone
  | update =>
    obtain ⟨hpositive, hs⟩ := hw.gaining
    change (t.update w).1 = .done at hdone
    change t.Told (t.update w).2
    obtain ⟨-, heq⟩ | ⟨-, heq | heq⟩ := t.update_cases w
    · rw [heq]
      exact hs.told hpositive.plain.1
    · rw [heq] at hdone
      cases hdone
    · rw [heq, (t.hebden_next _).1] at hdone
      cases hdone
  | done => exact hw.told rfl

theorem transition_measured {phase : Phase} (hw : t.Measured phase w) :
    t.Measured (t.transition phase w).1 (t.transition phase w).2 :=
  ⟨transition_gaining hw.gaining, fun _ => transition_measures hw, told_transition hw⟩

end StepTask

variable {c : Config ℝ} {h : Symmetric ℝ n} {g d : Vector ℝ n} {radius : ℝ} {m : StepMemory ℝ n}

section

variable (hm : m.Measures) (hreduction : 0 ≤ m.newtonReduction)
include hm hreduction

theorem run_measured : (StepTask.ofModel h g d radius c).Measured .done
    ((StepTask.ofModel h g d radius c).run (if m.isFresh then .freshStart else .restart)
      (.start m)) := by
  have hstart : (StepTask.ofModel h g d radius c).Measured
      (if m.isFresh then .freshStart else .restart) (.start m) := by
    cases m.isFresh with
    | true => exact ⟨⟨rfl, rfl⟩, fun hfresh => absurd rfl hfresh, nofun⟩
    | false => exact ⟨⟨⟨rfl, rfl⟩, hreduction⟩, fun _ => hm, nofun⟩
  exact StepTask.run_invariant _ StepTask.transition_measured hstart

theorem trustStep_measures : (trustStep c h g d radius m).2.Measures := by
  have hdone : (StepTask.ofModel h g d radius c).Measured .done _ := run_measured hm hreduction
  exact (hdone.memory (by decide)).congr (StepTask.newtonPart_finish _ _)

theorem trustStep_idle (hzero : (trustStep c h g d radius m).1.length = 0) :
    coords (trustStep c h g d radius m).1.step = 0 := by
  have hdone : (StepTask.ofModel h g d radius c).Measured .done _ := run_measured hm hreduction
  unfold trustStep at hzero ⊢
  dsimp only at hzero ⊢
  generalize (StepTask.ofModel h g d radius c).run _ _ = w at hdone hzero ⊢
  unfold StepTask.finish at hzero ⊢
  by_cases hstuck : w.stuck = true
  · rw [if_pos hstuck]
    exact coords_replicate_zero
  · rw [if_neg hstuck] at hzero ⊢
    obtain ⟨hlength, -⟩ := (hdone.told rfl).resolve_left hstuck
    have hstep : coords w.step = 0 := norm_eq_zero.mp (hlength.symm.trans hzero)
    dsimp only
    funext i
    rw [coords_overEach, hstep]
    exact zero_div _

end

/-- A step has the length it tells, in the scale of the region, and one of no length foretells
no reduction. That is so for a step that was given up too. -/
theorem trustStep_measured (hd : ∀ i : Fin n, 0 < d[i]) (hr : 0 < radius) (hm : m.Measures)
    (hreduction : 0 ≤ m.newtonReduction) :
    (trustStep c h g d radius m).1.length =
        Geometry.norm (timesEach d (trustStep c h g d radius m).1.step) ∧
      ((trustStep c h g d radius m).1.length = 0 →
        (trustStep c h g d radius m).1.reduction = 0) := by
  have hdone : (StepTask.ofModel h g d radius c).Measured .done _ := run_measured hm hreduction
  have hmul (s : Vector ℝ n) : timesEach d (overEach s d) = s := by
    apply coords_injective
    rw [coords_timesEach, mul_coords_overEach hd]
  have hzero : (0 : ℝ) = Geometry.norm (timesEach d (Vector.replicate n 0)) := by
    symm
    rw [norm_eq_zero, coords_timesEach, coords_replicate_zero, mul_zero]
  unfold trustStep
  dsimp only
  generalize (StepTask.ofModel h g d radius c).run _ _ = w at hdone ⊢
  unfold StepTask.finish
  constructor
  · rcases hdone.told rfl with hstuck | ⟨hlength, -⟩
    · rw [if_pos hstuck]
      exact hzero
    · split
      · exact hzero
      · exact hlength.trans (congrArg Geometry.norm (hmul w.step).symm)
  · rcases hdone.told rfl with hstuck | ⟨-, hidle⟩
    · rw [if_pos hstuck]
      exact fun _ => rfl
    · split
      · exact fun _ => rfl
      · intro hzero
        dsimp only at hzero ⊢
        obtain ⟨hspecial, henergy⟩ := hidle hr hzero
        rw [if_neg (by simp [hspecial]), henergy, hzero, mul_zero, add_zero, mul_zero]

end LeastSquares
