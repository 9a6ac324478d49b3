import LeastSquares.Proofs.Assess.Probe
import LeastSquares.Proofs.Exact

namespace LeastSquares

variable {p : Nat}

namespace Search

theorem comparable (e : Search ℝ p) : e.Comparable :=
  ⟨lt_irrefl _, fun h => not_le.mp h, fun h => not_le.mp h⟩

/-- What an assessment relies on. A best step that is a gain has a length. -/
structure Steady (e : Search ℝ p) : Prop where
  ready : e.Ready
  length : ¬e.Opens → e.record.bestF < e.iterate.f₀ → 0 ≤ e.record.bestLength

variable {c : Config ℝ} {e s : Search ℝ p}

theorem Taken.length_nonneg (he : e.Steady) (htrial : 0 ≤ e.trial.length) {t : Trial ℝ p} {f : ℝ}
    {x : Vector ℝ p} {model : Model} (h : e.Taken t f x model) : 0 ≤ t.length := by
  cases h with
  | back hopens _ _ hgain => exact he.length hopens (not_le.mp hgain)
  | tooFarBack hopens _ _ hgain => exact he.length hopens (not_le.mp hgain)
  | _ => exact htrial

theorem Placed.length_nonneg (he : e.Steady) (htrial : 0 ≤ e.trial.length)
    (h : e.Placed c s) : 0 ≤ s.trial.length := by
  rcases h with ⟨hmoved, -⟩ | hstays
  · exact hmoved.length_nonneg he htrial
  · obtain ⟨x, htaken⟩ := hstays.taken
    exact htaken.length_nonneg he htrial

theorem Kept.length_nonneg (he : e.Steady) (htrial : 0 ≤ e.trial.length) (h : e.Kept s)
    (hgain : s.record.bestF < e.iterate.f₀) : 0 ≤ s.record.bestLength := by
  rcases h with hstays | ⟨hmoved, -, -, -, hlength, -⟩
  · exact absurd hstays.no_gain (not_le.mpr hgain)
  · rw [hlength]
    exact hmoved.length_nonneg he htrial

theorem Shrunk.steady (he : e.Steady) (h : e.Shrunk s) (radius : ℝ) :
    Steady { s with iterate := { s.iterate with radius } } := by
  have hf₀ : s.iterate.f₀ = e.iterate.f₀ := by rw [h.iterate]
  refine ⟨h.ready he.ready radius, fun _ hgain => ?_⟩
  change s.record.bestF < s.iterate.f₀ at hgain
  change 0 ≤ s.record.bestLength
  rw [hf₀] at hgain
  rcases h.best with ⟨hbestF, -, -, hlength, -, -, hopens⟩ | ⟨-, hbestF, -⟩
  · rw [hlength]
    rw [hbestF] at hgain
    exact he.length hopens hgain
  · rw [hbestF] at hgain
    exact absurd hgain (lt_irrefl _)

theorem Judged.steady_again (he : e.Steady) (htrial : 0 ≤ e.trial.length) (h : e.Judged c s)
    (hv : s.verdict = .recompute) (radius : ℝ) :
    Steady { s with iterate := { s.iterate with radius } } := by
  have hready := h.ready_again he.ready hv radius
  obtain ⟨t, -, hshrunk | ⟨hframed, hkept⟩⟩ := h.of_recompute hv
  · have hsteady := hshrunk.steady he radius
    exact ⟨hready, hsteady.length⟩
  · refine ⟨hready, fun _ hgain => ?_⟩
    change s.record.bestF < s.iterate.f₀ at hgain
    have hf₀ : s.iterate.f₀ = e.iterate.f₀ := hframed.f₀
    rw [hf₀] at hgain
    exact Kept.length_nonneg (s := { s with trial := t }) he htrial hkept hgain

theorem Judged.steady_other (he : e.Steady) (htrial : 0 ≤ e.trial.length) (h : e.Judged c s)
    (hv : s.verdict = .otherOrShorter ∨ s.verdict = .otherOrAccept) :
    Steady { s with iterate := { s.iterate with model := e.iterate.model.other } } := by
  have hready := h.ready_other hv
  obtain ⟨t, -, hframed, -, -, hkept⟩ := h.of_other hv
  refine ⟨hready, fun _ hgain => ?_⟩
  change s.record.bestF < s.iterate.f₀ at hgain
  have hf₀ : s.iterate.f₀ = e.iterate.f₀ := hframed.f₀
  rw [hf₀] at hgain
  exact Kept.length_nonneg (s := { s with trial := t }) he htrial hkept hgain

end Search

end LeastSquares
