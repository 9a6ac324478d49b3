import LeastSquares.Proofs.Fit.Guided

namespace LeastSquares

variable {σ : Type} {n p : Nat}

theorem StepMemory.fits_reset {q : Nat} (m : StepMemory ℝ q) (h : Symmetric ℝ p)
    (g d : Vector ℝ p) : (m.reset : StepMemory ℝ p).Fits h g d := fun h => by cases h

/-- What the step solver remembers belongs to the model that its memory is kept for. -/
def Head.Recalls (h : Head ℝ σ n p) : Prop :=
  h.run.memory.Fits (h.run.modelHessian h.normal h.run.memoryModel) h.gradient
    h.run.search.iterate.d

/-- What the step solver relies on at every trial of a run. -/
structure Head.Paced (h : Head ℝ σ n p) : Prop where
  radius : 0 < h.run.search.iterate.radius
  d : ∀ i : Fin p, 0 < h.run.search.iterate.d[i]
  memory : h.run.memory.Fits (h.run.modelHessian h.normal h.run.memoryModel) h.gradient
    h.run.search.iterate.d
  best : ¬(h.run.search.verdict = .acceptByGradient ∨ h.run.search.verdict = .accept) →
    h.run.search.record.bestF < h.run.search.iterate.f₀ →
      0 < h.run.search.record.bestLength ∨ h.run.search.record.bestReduction ≤ 0

namespace Setup

variable (s : Setup ℝ σ p) {h : Head ℝ σ n p}

theorem remembered_fits (hh : h.Recalls) : (remembered h.run).Fits (h.run.hessian h.normal)
    h.gradient h.run.search.iterate.d := by
  unfold remembered
  split
  · exact StepMemory.fits_reset _ _ _ _
  · next hsame =>
    rw [Run.hessian, Decidable.not_not.mp hsame]
    exact hh

section

variable (hc : s.config.validate p = .ok ())
include hc

theorem judged_fits (hlimit : s.config.hebdenIterationLimit < 2 ^ 30)
    (hradius : 0 < h.run.search.iterate.radius) (hh : h.Recalls) (hs : h.Steady) :
    (s.judged h).memory.Fits ((s.judged h).modelHessian h.normal (s.judged h).memoryModel)
      h.gradient (s.judged h).search.iterate.d := by
  have hd : (s.judged h).search.iterate.d = h.run.search.iterate.d := by
    rw [(s.judged_judged hs).1.d_eq, scored_eq]
  have hhessian : (s.judged h).modelHessian h.normal (s.judged h).memoryModel =
      h.run.hessian h.normal := by
    have hmodel : (s.judged h).memoryModel = h.run.search.iterate.model := by
      obtain ⟨_, _, _, _, _, _, heq⟩ := s.judged_run h
      rw [heq]
    rw [Run.modelHessian_congr (s.judged_secant h), hmodel]
    rfl
  have hmemory : (s.evaluated h).memory.Fits (h.run.hessian h.normal) h.gradient
      h.run.search.iterate.d := by
    rw [evaluated_memory, tried_eq]
    exact trustStep_fits hc hlimit (remembered_fits hh) hradius
  rw [hd, hhessian]
  obtain ⟨search, memory, hjudged, hcase⟩ := s.judged_eq h
  rw [hjudged]
  rcases hcase with ⟨-, -, rfl⟩ | ⟨-, t, -, hprobe⟩
  · exact hmemory
  · have hlargest : 0 < s.config.initialTrustRadius :=
      Config.pos_of_validate hc (f := .initialTrustRadius) (by decide)
    have hsame := congrArg Prod.snd hprobe
    dsimp only at hsame ⊢
    rw [hsame, s.assessed_scale, tried_hessian]
    exact trustStep_fits hc hlimit hmemory hlargest

variable (hscale : s.config.Scales)
include hscale

theorem passes_paced (hlimit : s.config.hebdenIterationLimit < 2 ^ 30) {r₀ : Run ℝ σ n p}
    (hradius : 0 < r₀.search.iterate.radius) (hd : ∀ i : Fin p, 0 < r₀.search.iterate.d[i])
    (hstart : r₀.search.verdict = .accept) {l : List (Head ℝ σ n p)} (hl : s.Passes r₀ l) :
    ∀ h ∈ l, h.Paced := by
  have hsteady := s.passes_steady hstart hl
  have hguided := s.passes_guided hc hscale hradius hd hstart hl
  have hopening (r : Run ℝ σ n p) : (s.opening r).Recalls := by
    obtain ⟨_, _, _, _, _, _, -, heq⟩ := s.opening_run r
    unfold Head.Recalls
    rw [heq]
    exact StepMemory.fits_reset _ _ _ _
  have hrecalls : ∀ h ∈ l, h.Recalls := by
    refine s.passes_invariant hl (hopening r₀) ?again fun _ _ r _ _ _ _ _ => hopening r
    intro h _ r _ hmem hh _ hr
    have hfits := s.judged_fits hc hlimit (hguided h hmem).radius hh (hsteady h hmem)
    have hcases := s.followed_again h hr
    generalize s.judged h = j at hfits hcases
    rcases hcases with ⟨-, rfl⟩ | ⟨-, rfl⟩ | ⟨-, e, a, -, rfl⟩
    · exact hfits
    · exact hfits
    · exact hfits
  intro h hmem
  exact ⟨(hguided h hmem).radius, (hguided h hmem).d, hrecalls h hmem,
    fun hv hgain => ((hguided h hmem).best hv hgain).imp_right And.left⟩

end

end Setup

end LeastSquares
