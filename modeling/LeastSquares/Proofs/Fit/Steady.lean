import LeastSquares.Proofs.Assess.Steady
import LeastSquares.Proofs.Fit.Ran
import LeastSquares.Proofs.TrustStep.Reduction

namespace LeastSquares

variable {σ : Type} {n p : Nat}

/-- What the assessments rely on at every trial of a run. -/
structure Head.Steady (h : Head ℝ σ n p) : Prop where
  search : h.run.search.Steady
  memory : 0 ≤ h.run.memory.newtonReduction

theorem rescored_nonneg (t : Trial ℝ p) (g : Vector ℝ p) (h : Symmetric ℝ p)
    (d step : Vector ℝ p) :
    0 ≤ (t.rescored g h d step).length ∧ 0 ≤ (t.rescored g h d step).reduction := by
  unfold Trial.rescored
  dsimp only
  split
  · exact ⟨norm_nonneg _, le_refl 0⟩
  · exact ⟨norm_nonneg _, le_max_right _ _⟩

namespace Setup

variable (s : Setup ℝ σ p) {h : Head ℝ σ n p}

theorem remembered_nonneg {r : Run ℝ σ n p} (hr : 0 ≤ r.memory.newtonReduction) :
    0 ≤ (remembered r).newtonReduction := by
  unfold remembered
  split
  · exact le_refl 0
  · exact hr

theorem clamped_nonneg (hh : h.Steady) :
    0 ≤ (s.clamped h).length ∧ (stretchLoss s.config ≤ 1 → 0 ≤ (s.clamped h).reduction) := by
  obtain ⟨hlength, -, hreduction⟩ := trustStep_nonneg (c := s.config)
    (h := h.run.hessian h.normal) (g := h.gradient) (d := h.run.search.iterate.d)
    h.run.search.iterate.radius (remembered_nonneg hh.memory)
  obtain heq | ⟨step, heq⟩ := s.clamped_cases h
  · rw [heq]
    exact ⟨hlength, hreduction⟩
  · rw [heq]
    obtain ⟨hlength, hreduction⟩ := rescored_nonneg (s.unclamped h).1 h.gradient
      (h.run.hessian h.normal) h.run.search.iterate.d step
    exact ⟨hlength, fun _ => hreduction⟩

theorem scored_steady (hh : h.Steady) : (s.scored h).Steady := by
  rw [scored_eq]
  exact ⟨hh.search.ready, hh.search.length⟩

theorem scored_trial (hh : h.Steady) : 0 ≤ (s.scored h).trial.length := by
  rw [scored_eq]
  exact (s.clamped_nonneg hh).1

theorem tried_memory (hh : h.Steady) : 0 ≤ (s.tried h).memory.newtonReduction := by
  rw [tried_eq]
  exact (trustStep_nonneg _ (remembered_nonneg hh.memory)).2.1

theorem judged_judged (hh : h.Steady) :
    (s.scored h).Judged s.config (s.judged h).search ∧
      0 ≤ (s.judged h).memory.newtonReduction := by
  have hassessed := assess_assessed (c := s.config) (s.scored_steady hh).ready
    (Search.comparable _)
  have hmemory : 0 ≤ (s.evaluated h).memory.newtonReduction := by
    rw [evaluated_memory]
    exact s.tried_memory hh
  obtain ⟨search, memory, hjudged, hcase⟩ := s.judged_eq h
  rw [hjudged]
  rcases hcase with ⟨hv, rfl, rfl⟩ | ⟨hv, t, rfl, hprobe⟩
  · exact ⟨hassessed.judged hv, hmemory⟩
  · have hlength : 0 ≤ (assess s.config (s.scored h)).trial.length := by
      rcases hassessed with hshrunk | ⟨-, hplaced, -⟩
      · rw [hshrunk.verdict] at hv
        cases hv
      · exact hplaced.length_nonneg (s.scored_steady hh) (s.scored_trial hh)
    -- The length was not lost when the probe was asked for, so its sign still tells what was
    -- decided.
    have hknown : ¬(assess s.config (s.scored h)).Forgets := by
      rintro ⟨-, hneg, hnot⟩
      rw [hneg] at hnot
      exact hnot (neg_nonpos.mpr hlength)
    refine ⟨hassessed.judged_probe hv hknown t, ?_⟩
    have hsound := trustStep_nonneg (c := s.config) (h := (s.tried h).hessian h.normal)
      (g := h.gradient) (d := (assess s.config (s.scored h)).iterate.d)
      s.config.initialTrustRadius hmemory
    rw [← hprobe] at hsound
    exact hsound.2.1

theorem steady_opening {r : Run ℝ σ n p} (hr : r.search.verdict = .acceptByGradient ∨
    r.search.verdict = .accept) : (s.opening r).Steady := by
  obtain ⟨_, _, _, _, _, _, hlimit, heq⟩ := s.opening_run r
  refine ⟨?_, ?_⟩
  · rw [heq]
    refine ⟨⟨hlimit, ?_⟩, fun hopens => ?_⟩
    · dsimp only
      rcases hr with hr | hr <;> rw [hr] <;> trivial
    · exact absurd (hr.imp_right .inl) hopens
  · rw [heq]
    exact le_refl 0

theorem steady_again (hh : h.Steady) {r : Run ℝ σ n p} (hr : s.followed h = (r, .again)) :
    Head.Steady ⟨h.gradient, h.normal, r⟩ := by
  obtain ⟨hjudged, hmemory⟩ := s.judged_judged hh
  have he := s.scored_steady hh
  have htrial := s.scored_trial hh
  rcases s.followed_again h hr with ⟨hv, rfl⟩ | ⟨hv, rfl⟩ | ⟨hv, e, a, -, rfl⟩
  · have hother := hjudged.steady_other he htrial hv
    exact ⟨hother, hmemory⟩
  · exact ⟨hjudged.steady_again he htrial hv _, hmemory⟩
  · refine ⟨⟨⟨?_, trivial⟩, fun hopens => ?_⟩, hmemory⟩
    · have hlimit := hjudged.stageLimit_eq
      change (s.judged h).search.iterate.stageLimit = 1 ∨
        (s.judged h).search.iterate.stageLimit = 2
      rw [hlimit]
      exact he.ready.1
    · exact absurd (.inr (.inl rfl)) hopens

theorem passes_steady {r₀ : Run ℝ σ n p} (hr₀ : r₀.search.verdict = .accept)
    {l : List (Head ℝ σ n p)} (hl : s.Passes r₀ l) : ∀ h ∈ l, h.Steady := by
  refine s.passes_invariant hl (s.steady_opening (.inr hr₀)) ?again ?next
  case again =>
    intro h _ r _ _ hh _ hr
    exact s.steady_again hh hr
  case next =>
    intro h _ r _ _ _ _ hr
    obtain ⟨hv, _, _, _, _, -, rfl⟩ := s.followed_accepted h hr
    exact s.steady_opening hv

end Setup

end LeastSquares
