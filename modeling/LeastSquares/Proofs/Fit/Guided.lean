import LeastSquares.Proofs.Assess.Pace
import LeastSquares.Proofs.Fit.Origin
import LeastSquares.Proofs.TrustStep.Measured

namespace LeastSquares

variable {σ : Type} {m n p : Nat}

def Config.Scales (c : Config ℝ) : Prop := c.scaleMode = .adaptive → 0 < c.scaleFloor

namespace Config

variable {c : Config ℝ}

theorem scaleEntry_pos (hreset : 0 < c.scaleReset) (hfloor : 0 < c.scaleFloor) (column : Vector ℝ n)
    (curvature decay d : ℝ) : 0 < c.scaleEntry column curvature decay d := by
  unfold scaleEntry
  dsimp only
  split
  · exact lt_max_of_lt_left hreset
  · next hlarge => exact hfloor.trans_le (not_lt.mp hlarge)

theorem updateScale_pos (hreset : 0 < c.scaleReset) (hscale : c.Scales) (j : Dense ℝ n m)
    (second : Option (Symmetric ℝ m)) (first : Bool) {d : Vector ℝ p}
    (hd : ∀ i : Fin p, 0 < d[i]) : ∀ i : Fin p, 0 < (c.updateScale j second first d)[i] := by
  intro i
  unfold updateScale
  split
  · exact hd i
  · next hadaptive =>
    simp only [getElem_place, Vector.getElem_ofFn]
    split
    · exact scaleEntry_pos hreset (hscale hadaptive) _ _ _ _
    · exact hd i

theorem initial_pos (hc : c.validate p = .ok ()) (i : Fin p) :
    0 < (c.scaleMode.initial p)[i] := by
  have hfault := (faults_of_validate hc).2.2.1
  unfold scaleFault? at hfault
  generalize c.scaleMode = mode at hfault ⊢
  have hone : (0 : ℝ) < (Vector.replicate p 1)[i] := by simp
  match mode, hfault with
  | .adaptive, _ => exact hone
  | .fixed none, _ => exact hone
  | .fixed (some d), hfault =>
    dsimp only at hfault
    split at hfault
    · cases hfault
    next hsize =>
    rw [ScaleMode.initial, dif_pos (Decidable.not_not.mp hsize)]
    rw [Option.map_eq_none_iff, Array.findIdx?_eq_none_iff] at hfault
    have hpos := hfault d[i.val] (Array.getElem_mem _)
    rw [Bool.not_eq_false', isPositive, Bool.and_eq_true] at hpos
    exact of_decide_eq_true hpos.1

theorem paced_of_validate (hc : c.validate p = .ok ()) : c.Paced where
  falseConvergeTol := nonneg_of_validate hc (f := .falseConvergeTol) (by decide)
  tuner2 := nonneg_of_validate hc (f := .tuner2) (by decide)
  decrease := pos_of_validate hc (f := .decreaseFactor) (by decide)
  increase := pos_of_validate hc (f := .increaseFactor) (by decide)
  radfacMin := pos_of_validate hc (f := .radfacMin) (by decide)
  radfacMax := pos_of_validate hc (f := .radfacMax) (by decide)

end Config

/-- What keeps the radius of a run positive, whatever the limit of shifts. -/
structure Head.Guided (h : Head ℝ σ n p) : Prop where
  radius : 0 < h.run.search.iterate.radius
  d : ∀ i : Fin p, 0 < h.run.search.iterate.d[i]
  memory : h.run.memory.Measures
  best : ¬(h.run.search.verdict = .acceptByGradient ∨ h.run.search.verdict = .accept) →
    h.run.search.record.bestF < h.run.search.iterate.f₀ →
      0 < h.run.search.record.bestLength ∨
        h.run.search.record.bestReduction ≤ 0 ∧ coords h.run.search.record.bestStep = 0

theorem timesEach_comm (x y : Vector ℝ p) : timesEach x y = timesEach y x := by
  apply coords_injective
  rw [coords_timesEach, coords_timesEach, mul_comm]

theorem rescored_length (t : Trial ℝ p) (g : Vector ℝ p) (h : Symmetric ℝ p)
    (d step : Vector ℝ p) :
    (t.rescored g h d step).step = step ∧
      (t.rescored g h d step).length = Geometry.norm (timesEach d step) ∧
      ((t.rescored g h d step).length = 0 → (t.rescored g h d step).reduction = 0) := by
  rw [timesEach_comm d step]
  unfold Trial.rescored
  dsimp only
  split
  · exact ⟨rfl, rfl, fun _ => rfl⟩
  · next hlength =>
    refine ⟨rfl, rfl, fun hzero => ?_⟩
    dsimp only at hzero
    rw [hzero, beq_self_eq_true] at hlength
    exact absurd rfl hlength

theorem eq_zero_of_length {d step : Vector ℝ p} (hd : ∀ i : Fin p, 0 < d[i])
    (hlength : Geometry.norm (timesEach d step) = 0) : coords step = 0 := by
  rw [norm_eq_zero, coords_timesEach] at hlength
  funext i
  have hi := congrFun hlength i
  exact (mul_eq_zero.mp hi).resolve_left (coords_ne_zero_of_pos hd i)

theorem StepMemory.measures_reset {q : Nat} (m : StepMemory ℝ q) :
    (m.reset : StepMemory ℝ p).Measures :=
  fun hpos => absurd hpos (lt_irrefl 0)

namespace Run

variable (c : Config ℝ) (g : Vector ℝ p)

theorem learn_radius {r : Run ℝ σ n p} (a : Accepted ℝ n p) (hr : 0 < r.search.iterate.radius) :
    0 < (learn c g r a).search.iterate.radius := by
  unfold learn
  dsimp only
  split
  · next hpos => exact hpos.1
  · split
    · exact hr
    · exact hr

theorem rescale_radius (first : Bool) (r : Run ℝ σ n p) :
    (r.rescale c first).openIteration.search.iterate.radius = r.search.iterate.radius := rfl

theorem rescale_scale (first : Bool) (r : Run ℝ σ n p) : ∃ second,
    (r.rescale c first).openIteration.search.iterate.d =
      c.updateScale r.base.jacobian second first r.search.iterate.d := ⟨_, rfl⟩

theorem beginIteration_radius {r : Run ℝ σ n p} (hr : 0 < r.search.iterate.radius) :
    0 < (r.beginIteration c g).search.iterate.radius := by
  unfold beginIteration
  split
  · rw [rescale_radius]
    exact hr
  · rw [rescale_radius]
    exact learn_radius c g _ hr

theorem beginIteration_scale (r : Run ℝ σ n p) : ∃ second first,
    (r.beginIteration c g).search.iterate.d =
      c.updateScale r.base.jacobian second first r.search.iterate.d := by
  unfold beginIteration
  split
  · obtain ⟨second, heq⟩ := rescale_scale c true r
    exact ⟨second, true, heq⟩
  · next a _ =>
    obtain ⟨second, heq⟩ := rescale_scale c false (learn c g r a)
    obtain ⟨model, radius, secant, hlearn⟩ := Setup.learn_run c g r a
    rw [hlearn] at heq
    rw [hlearn]
    exact ⟨second, false, heq⟩

end Run

namespace Setup

variable (s : Setup ℝ σ p) {h : Head ℝ σ n p}

theorem assessed_scale (h : Head ℝ σ n p) :
    (assess s.config (s.scored h)).iterate.d = h.run.search.iterate.d := by
  obtain ⟨_, _, _, hiterate⟩ := assess_iterate s.config (s.scored h)
  rw [hiterate, scored_eq]

theorem assessed_radius (h : Head ℝ σ n p) :
    (assess s.config (s.scored h)).iterate.radius = h.run.search.iterate.radius := by
  obtain ⟨_, _, _, hiterate⟩ := assess_iterate s.config (s.scored h)
  rw [hiterate, scored_eq]

theorem remembered_measures (hm : h.run.memory.Measures) : (remembered h.run).Measures := by
  unfold remembered
  split
  · exact StepMemory.measures_reset _
  · exact hm

section

variable (hm : h.run.memory.Measures) (hs : h.Steady)
include hm hs

theorem tried_measures : (s.tried h).memory.Measures := by
  rw [tried_eq]
  exact trustStep_measures (remembered_measures hm) (remembered_nonneg hs.memory)

theorem judged_measures : (s.judged h).memory.Measures := by
  have htried := s.tried_measures hm hs
  rw [← evaluated_memory] at htried
  obtain ⟨search, memory, hjudged, hcase⟩ := s.judged_eq h
  rw [hjudged]
  rcases hcase with ⟨-, -, rfl⟩ | ⟨-, t, -, hprobe⟩
  · exact htried
  · have hsame : memory = _ := congrArg Prod.snd hprobe
    dsimp only
    rw [hsame]
    refine trustStep_measures htried ?_
    rw [evaluated_memory]
    exact s.tried_memory hs

end

section

variable (hh : h.Guided) (hs : h.Steady)
include hh hs

theorem clamped_length :
    (s.clamped h).length = Geometry.norm (timesEach h.run.search.iterate.d (s.clamped h).step) ∧
      ((s.clamped h).length = 0 → (s.clamped h).reduction = 0) := by
  obtain ⟨hlength, hidle⟩ := trustStep_measured (c := s.config)
    (h := h.run.hessian h.normal) (g := h.gradient) hh.d hh.radius (remembered_measures hh.memory)
    (remembered_nonneg hs.memory)
  obtain heq | ⟨step, heq⟩ := s.clamped_cases h
  · rw [heq]
    exact ⟨hlength, hidle⟩
  · rw [heq]
    obtain ⟨hstep, hlength, hidle⟩ := rescored_length (s.unclamped h).1 h.gradient
      (h.run.hessian h.normal) h.run.search.iterate.d step
    rw [hstep]
    exact ⟨hlength, hidle⟩

theorem clamped_nonneg_length : 0 ≤ (s.clamped h).length := by
  rw [(s.clamped_length hh hs).1]
  exact norm_nonneg _

theorem clamped_idle (hzero : (s.clamped h).length = 0) :
    (s.clamped h).reduction ≤ 0 ∧ coords (s.clamped h).step = 0 := by
  obtain ⟨hlength, hidle⟩ := s.clamped_length hh hs
  exact ⟨(hidle hzero).le, eq_zero_of_length hh.d (hlength.symm.trans hzero)⟩

theorem scored_paced : (s.scored h).Paced := by
  rw [scored_eq]
  refine ⟨s.clamped_nonneg_length hh hs, fun hzero => ?_,
    fun hzero => (s.clamped_idle hh hs hzero).1,
    fun hv hgain => (hh.best hv hgain).imp_right And.left⟩
  apply coords_injective
  change coords (h.run.search.iterate.x₀ + (s.clamped h).step) =
    coords h.run.search.iterate.x₀
  rw [coords_add, (s.clamped_idle hh hs hzero).2, add_zero]

theorem judged_reach : 0 < (s.judged h).search.iterate.radius ∧ 0 < (s.judged h).reach := by
  have hradius : 0 < (s.judged h).search.iterate.radius := by
    rw [(s.judged_judged hs).1.radius_eq, scored_eq]
    exact hh.radius
  refine ⟨hradius, ?_⟩
  unfold Run.reach
  split
  · assumption
  · exact hradius

variable (hc : s.config.validate p = .ok ())
include hc

theorem judged_guides :
    (s.judged h).search.record.Guides (s.judged h).search.verdict := by
  have hpaced := s.scored_paced hh hs
  have hready := (s.scored_steady hs).ready
  have hpace := Search.assess_pace (Config.paced_of_validate hc) hready hpaced
  obtain ⟨search, memory, hjudged, hcase⟩ := s.judged_eq h
  rw [hjudged]
  rcases hcase with ⟨-, rfl, -⟩ | ⟨hv, t, rfl, -⟩
  · exact hpace.1
  · have hlength : 0 ≤ (assess s.config (s.scored h)).trial.length := by
      rcases assess_assessed (c := s.config) hready (Search.comparable _) with
        hshrunk | ⟨-, hplaced, -⟩
      · rw [hshrunk.verdict] at hv
        cases hv
      · exact hplaced.length_nonneg (s.scored_steady hs) hpaced.length
    exact Search.probe_pace hv hlength (hpace.2 hv) t

theorem followed_radius {r : Run ℝ σ n p} {next : Next} (hr : s.followed h = (r, next)) :
    0 < r.search.iterate.radius := by
  obtain ⟨hradius, hreach⟩ := s.judged_reach hh hs
  have hguides := s.judged_guides hh hs hc
  have hdecrease := (Config.paced_of_validate hc).decrease
  have hstep := s.followed_step h
  rw [hr] at hstep
  cases hstep with
  | other _ => exact hradius
  | again hv => exact mul_pos (hguides hv) hreach
  | lost _ _ => exact mul_pos hdecrease hreach
  | passed hpassed =>
    obtain ⟨-, _, _, _, _, -, rfl⟩ := hpassed
    exact hradius
  | stopped hpassed =>
    obtain ⟨-, _, _, _, _, -, rfl⟩ := hpassed
    exact hradius
  | ended _ => exact hradius

theorem guided_again {r : Run ℝ σ n p} (hr : s.followed h = (r, .again)) :
    Head.Guided ⟨h.gradient, h.normal, r⟩ := by
  obtain ⟨hjudged, -⟩ := s.judged_judged hs
  have hmemory := s.judged_measures hh.memory hs
  have hf₀ : (s.judged h).search.iterate.f₀ = (s.scored h).iterate.f₀ := hjudged.f₀_eq
  have hd : ∀ i : Fin p, 0 < (s.judged h).search.iterate.d[i] := by
    rw [hjudged.d_eq, scored_eq]
    exact hh.d
  have hbest (hv : (s.judged h).search.verdict = .otherOrShorter ∨
      (s.judged h).search.verdict = .otherOrAccept ∨ (s.judged h).search.verdict = .recompute)
      (hgain : (s.judged h).search.record.bestF < (s.judged h).search.iterate.f₀) :
      0 < (s.judged h).search.record.bestLength ∨
        (s.judged h).search.record.bestReduction ≤ 0 ∧
          coords (s.judged h).search.record.bestStep = 0 := by
    have htrial := (s.clamped_nonneg_length hh hs).lt_or_eq.imp_right
      fun hzero => s.clamped_idle hh hs hzero.symm
    rw [hf₀] at hgain
    refine hjudged.best_holds (q := fun step length reduction =>
      0 < length ∨ reduction ≤ 0 ∧ coords step = 0) ?_ ?_ hv hgain
    · rw [scored_eq]
      exact htrial
    · rw [scored_eq]
      exact fun hopens hbestF => hh.best (fun hv => hopens (hv.imp_right .inl)) hbestF
  have hradius := s.followed_radius hh hs hc hr
  have hcases := s.followed_again h hr
  generalize s.judged h = j at hmemory hd hbest hcases
  rcases hcases with ⟨hv, rfl⟩ | ⟨hv, rfl⟩ | ⟨-, e, a, -, rfl⟩
  · exact ⟨hradius, hd, hmemory, fun _ => hbest (hv.imp_right .inl)⟩
  · exact ⟨hradius, hd, hmemory, fun _ => hbest (.inr (.inr hv))⟩
  · exact ⟨hradius, hd, hmemory, fun hnot => absurd (.inr rfl) hnot⟩

end

theorem opening_radius {r : Run ℝ σ n p} (hr : 0 < r.search.iterate.radius) :
    0 < (s.opening r).run.search.iterate.radius := by
  obtain ⟨warnings, heq⟩ := s.opening_eq r
  rw [heq]
  exact Run.beginIteration_radius s.config r.base.gradient hr

theorem opening_scale (r : Run ℝ σ n p) : ∃ second first,
    (s.opening r).run.search.iterate.d =
      s.config.updateScale r.base.jacobian second first r.search.iterate.d := by
  obtain ⟨warnings, heq⟩ := s.opening_eq r
  rw [heq]
  exact Run.beginIteration_scale s.config r.base.gradient { r with
    iterations := r.iterations + 1
    warnings }

section

variable (hc : s.config.validate p = .ok ()) (hscale : s.config.Scales)
include hc hscale

theorem guided_opening {r : Run ℝ σ n p} (hradius : 0 < r.search.iterate.radius)
    (hd : ∀ i : Fin p, 0 < r.search.iterate.d[i])
    (hv : r.search.verdict = .acceptByGradient ∨ r.search.verdict = .accept) :
    (s.opening r).Guided := by
  obtain ⟨second, first, hupdate⟩ := s.opening_scale r
  have hreset : 0 < s.config.scaleReset :=
    Config.pos_of_validate hc (f := .scaleReset) (by decide)
  have hpos := Config.updateScale_pos hreset hscale r.base.jacobian second first hd
  rw [← hupdate] at hpos
  obtain ⟨_, _, _, _, _, _, -, heq⟩ := s.opening_run r
  refine ⟨s.opening_radius hradius, hpos, ?_, fun hnot => absurd ?_ hnot⟩
  · rw [heq]
    exact StepMemory.measures_reset _
  · rw [heq]
    exact hv

theorem passes_guided {r₀ : Run ℝ σ n p} (hradius : 0 < r₀.search.iterate.radius)
    (hd : ∀ i : Fin p, 0 < r₀.search.iterate.d[i]) (hstart : r₀.search.verdict = .accept)
    {l : List (Head ℝ σ n p)} (hl : s.Passes r₀ l) : ∀ h ∈ l, h.Guided := by
  have hsteady := s.passes_steady hstart hl
  refine s.passes_invariant hl (s.guided_opening hc hscale hradius hd (.inr hstart)) ?again ?next
  case again =>
    intro h _ r _ hmem hh _ hr
    exact s.guided_again hh (hsteady h hmem) hc hr
  case next =>
    intro h _ r _ hmem hh _ hr
    have hradius := s.followed_radius hh (hsteady h hmem) hc hr
    obtain ⟨hv, _, _, _, _, -, rfl⟩ := s.followed_accepted h hr
    refine s.guided_opening hc hscale hradius ?_ hv
    dsimp only
    rw [(s.judged_judged (hsteady h hmem)).1.d_eq, scored_eq]
    exact hh.d

end

end Setup

theorem Begun.positive {P : Problem ℝ σ p} {initial : Vector ℝ p}
    {lower upper : Option (Array (Scalar.Side ℝ))} {c : Config ℝ} {state : σ} {s : Setup ℝ σ p}
    {r₀ : Run ℝ σ n p} (h : Begun P initial lower upper c state s r₀) :
    0 < r₀.search.iterate.radius ∧ (∀ i : Fin p, 0 < r₀.search.iterate.d[i]) ∧
      r₀.search.verdict = .accept := by
  have hc := validate_of_checkInput h.input
  obtain ⟨_, _, _, -, -, rfl⟩ := h.first
  exact ⟨Config.pos_of_validate hc (f := .initialTrustRadius) (by decide), Config.initial_pos hc,
    rfl⟩

end LeastSquares
