import LeastSquares.Covariance
import LeastSquares.Proofs.Assess.Steady

namespace LeastSquares

variable {n p : Nat}

namespace Search

variable (e : Search ℝ p)

/-- A trial that was evaluated, and the best step before it, are among these points. -/
structure Backed (points : List (Vector ℝ p × Vector ℝ n)) : Prop where
  reduction : 0 ≤ e.trial.reduction
  place : e.iterate.x = e.iterate.x₀ + e.trial.step
  value : e.iterate.oversized = false →
    ∃ v, (e.iterate.x, v) ∈ points ∧ objective v = e.iterate.f
  tooFar : e.iterate.oversized = true → e.iterate.f₀ ≤ e.iterate.f
  best : ¬e.Opens → e.record.bestF < e.iterate.f₀ → 0 ≤ e.record.bestReduction ∧
    ∃ v, (e.iterate.x₀ + e.record.bestStep, v) ∈ points ∧ objective v = e.record.bestF

/-- Before the trial, `low` is the least of the iterate and the best step. -/
structure Lowest (low : ℝ) : Prop where
  opens : e.Opens → low = e.iterate.f₀
  later : ¬e.Opens → low = min e.iterate.f₀ e.record.bestF

noncomputable def lowered (low : ℝ) : ℝ :=
  if e.iterate.oversized then low else min low e.iterate.f

variable {e} {c : Config ℝ} {s : Search ℝ p} {points : List (Vector ℝ p × Vector ℝ n)} {low : ℝ}

section

variable {t : Trial ℝ p} {f : ℝ} {x : Vector ℝ p} {model : Model}

theorem Taken.reduction_nonneg (he : e.Backed points) (h : e.Taken t f x model) :
    0 ≤ t.reduction := by
  cases h with
  | back hopens _ _ hgain => exact (he.best hopens (not_le.mp hgain)).1
  | tooFarBack hopens _ _ hgain => exact (he.best hopens (not_le.mp hgain)).1
  | _ => exact he.reduction

theorem Taken.evaluated (he : e.Backed points) (h : e.Taken t f x model)
    (hgain : f < e.iterate.f₀) :
    x = e.iterate.x₀ + t.step ∧ ∃ v, (x, v) ∈ points ∧ objective v = f := by
  cases h with
  | first _ hfits => exact ⟨he.place, he.value hfits⟩
  | better _ hfits _ => exact ⟨he.place, he.value hfits⟩
  | worse _ hfits _ _ => exact ⟨he.place, he.value hfits⟩
  | back hopens _ _ _ => exact ⟨rfl, (he.best hopens hgain).2⟩
  | tooFar _ hlarge _ _ => exact absurd (he.tooFar hlarge) (not_le.mpr hgain)
  | tooFarBack hopens _ _ _ => exact ⟨rfl, (he.best hopens hgain).2⟩

theorem Taken.lowered_eq (he : e.Backed points) (hlow : e.Lowest low)
    (h : e.Taken t f x model) : e.lowered low = min e.iterate.f₀ f := by
  unfold lowered
  cases h with
  | first hopens hfits => rw [hfits, hlow.opens hopens, if_neg Bool.false_ne_true]
  | better hopens hfits hless =>
    rw [hfits, hlow.later hopens, if_neg Bool.false_ne_true, min_assoc, min_eq_right hless.le]
  | worse hopens hfits _ hbest =>
    rw [hfits, hlow.later hopens, if_neg Bool.false_ne_true, min_eq_left hbest]
  | back hopens hfits hless _ =>
    rw [hfits, hlow.later hopens, if_neg Bool.false_ne_true, min_assoc,
      min_eq_left (not_lt.mp hless)]
  | tooFar hopens hlarge _ hbest =>
    rw [if_pos hlarge, hlow.later hopens, min_eq_left hbest, min_eq_left (he.tooFar hlarge)]
  | tooFarBack hopens hlarge _ _ => rw [if_pos hlarge, hlow.later hopens]

end

theorem Stays.lowered_eq (he : e.Backed points) (hlow : e.Lowest low) (h : e.Stays s) :
    e.lowered low = e.iterate.f₀ := by
  obtain ⟨x, htaken⟩ := h.taken
  rw [htaken.lowered_eq he hlow, min_eq_left h.no_gain]

theorem Falls.lt (hc : 0 ≤ c.tuner2) (he : e.Backed points) (h : e.Falls c s) :
    s.iterate.f < e.iterate.f₀ := by
  obtain ⟨hmoved, hgain | hgain⟩ := h
  · exact hgain
  · have hreduction := mul_nonneg hc (hmoved.reduction_nonneg he)
    exact sub_pos.mp (hreduction.trans_lt hgain)

theorem Placed.lowered_eq (hc : 0 ≤ c.tuner2) (he : e.Backed points) (hlow : e.Lowest low)
    (h : e.Placed c s) : e.lowered low = s.iterate.f := by
  rcases h with hfalls | hstays
  · rw [hfalls.1.lowered_eq he hlow, min_eq_right (hfalls.lt hc he).le]
  · rw [hstays.lowered_eq he hlow]
    exact hstays.f.symm

theorem Kept.lowered_eq (he : e.Backed points) (hlow : e.Lowest low) (h : e.Kept s) :
    e.lowered low = min e.iterate.f₀ s.record.bestF := by
  rcases h with hstays | ⟨hmoved, -, hbestF, -⟩
  · obtain ⟨x, htaken⟩ := hstays.taken
    exact htaken.lowered_eq he hlow
  · rw [hbestF]
    exact hmoved.lowered_eq he hlow

theorem Kept.evaluated (he : e.Backed points) (h : e.Kept s)
    (hgain : s.record.bestF < e.iterate.f₀) : 0 ≤ s.record.bestReduction ∧
      ∃ v, (e.iterate.x₀ + s.record.bestStep, v) ∈ points ∧ objective v = s.record.bestF := by
  rcases h with hstays | ⟨hmoved, -, hbestF, hstep, -, hreduction, -⟩
  · exact absurd hstays.no_gain (not_le.mpr hgain)
  · rw [hbestF] at hgain ⊢
    obtain ⟨hplace, hvalue⟩ := hmoved.evaluated he hgain
    rw [hreduction, hstep, ← hplace]
    exact ⟨hmoved.reduction_nonneg he, hvalue⟩

theorem Judged.retried (he : e.Backed points) (h : e.Judged c s)
    (hv : s.verdict = .otherOrShorter ∨ s.verdict = .otherOrAccept ∨ s.verdict = .recompute) :
    (s.record.bestF < e.iterate.f₀ → 0 ≤ s.record.bestReduction ∧
      ∃ v, (e.iterate.x₀ + s.record.bestStep, v) ∈ points ∧ objective v = s.record.bestF) ∧
    ∀ low, e.Lowest low → e.lowered low = min e.iterate.f₀ s.record.bestF := by
  obtain ⟨t, -, hshrunk | ⟨-, hkept⟩⟩ := h.again hv
  · have hbest := hshrunk.best
    dsimp only at hbest
    have hlowered (low : ℝ) : e.lowered low = low := if_pos hshrunk.oversized
    rcases hbest with ⟨hbestF, -, hstep, -, hreduction, -, hopens⟩ | ⟨hopens, hbestF, -⟩
    · rw [hbestF, hstep, hreduction]
      exact ⟨he.best hopens, fun low hlow => (hlowered low).trans (hlow.later hopens)⟩
    · rw [hbestF, min_self]
      exact ⟨fun hgain => absurd hgain (lt_irrefl _),
        fun low hlow => (hlowered low).trans (hlow.opens hopens)⟩
  · have hevaluated := hkept.evaluated he
    have hlowered (low : ℝ) (hlow : e.Lowest low) := hkept.lowered_eq he hlow
    exact ⟨hevaluated, hlowered⟩

theorem Judged.accepted (hc : 0 ≤ c.tuner2) (he : e.Backed points) (h : e.Judged c s)
    (hv : s.verdict = .acceptByGradient ∨ s.verdict = .accept) :
    s.iterate.f < e.iterate.f₀ ∧ (∃ v, (s.iterate.x, v) ∈ points ∧ objective v = s.iterate.f) ∧
      ∀ low, e.Lowest low → e.lowered low = s.iterate.f := by
  obtain ⟨t, -, -, -, hshrunk | ⟨-, hplaced, hfinal | hruling⟩⟩ := h
  · have hrecompute : s.verdict = .recompute := hshrunk.verdict
    rw [hrecompute] at hv
    rcases hv with hv | hv <;> cases hv
  · rcases hv with hv | hv <;> rw [hv] at hfinal <;> exact hfinal.elim
  · obtain ⟨hmoved, hdecrease⟩ := hruling.of_accept hv
    have hfalls : e.Falls c { s with trial := t } := ⟨hmoved, .inr hdecrease⟩
    have hgain := hfalls.lt hc he
    have hlowered (low : ℝ) (hlow : e.Lowest low) := hplaced.lowered_eq hc he hlow
    exact ⟨hgain, (hmoved.evaluated he hgain).2, hlowered⟩

theorem Judged.over (hc : 0 ≤ c.tuner2) (he : e.Backed points) (h : e.Judged c s)
    (hv : s.verdict.code = 6 ∨ 6 < s.verdict.code) :
    (s.iterate.f = e.iterate.f₀ ∧ s.iterate.x = e.iterate.x₀ ∨ s.iterate.f < e.iterate.f₀ ∧
        ∃ v, (s.iterate.x, v) ∈ points ∧ objective v = s.iterate.f) ∧
      ∀ low, e.Lowest low → e.lowered low = s.iterate.f := by
  obtain ⟨t, -, -, -, hshrunk | ⟨-, hplaced, -⟩⟩ := h
  · have hrecompute : s.verdict = .recompute := hshrunk.verdict
    rw [hrecompute] at hv
    exact absurd hv (by decide)
  · have hlowered (low : ℝ) (hlow : e.Lowest low) := hplaced.lowered_eq hc he hlow
    refine ⟨?_, hlowered⟩
    rcases hplaced with hfalls | hstays
    · have hgain := hfalls.lt hc he
      exact .inr ⟨hgain, (hfalls.1.evaluated he hgain).2⟩
    · exact .inl ⟨hstays.f, hstays.x⟩

end Search

end LeastSquares
