import LeastSquares.Proofs.Assess.Probe

namespace LeastSquares

variable {α : Type} [Scalar α] {p : Nat}

namespace Search

variable (e : Search α p)

def Reverts : Prop :=
  ¬e.Opens ∧ ¬e.iterate.f₀ ≤ e.record.bestF ∧
    (e.iterate.oversized = true ∨ ¬e.iterate.f < e.record.bestF)

/-- The model of the best step is held responsible in place of the one in use. -/
def Yields : Prop :=
  ¬e.Opens ∧ e.iterate.oversized = false ∧ ¬e.iterate.f < e.record.bestF

variable {e} {c : Config α} {s : Search α p} {t : Trial α p} {f : α} {x : Vector α p}
  {model : Model}

omit [Scalar α] in
theorem Opens.congr (h : e.Opens) (hv : s.verdict = e.verdict) (hr : s.record = e.record) :
    s.Opens := by
  rw [Opens, hv, hr]
  exact h

theorem Taken.reverts_or (h : e.Taken t f x model) :
    e.Reverts ∧ t = e.recalled ∧ x = e.iterate.x₀ + e.record.bestStep ∨
      ¬e.Reverts ∧ t = e.trial ∧ x = e.iterate.x := by
  cases h with
  | first hopens => exact .inr ⟨fun h => h.1 hopens, rfl, rfl⟩
  | better _ hfits hless =>
    refine .inr ⟨fun h => ?_, rfl, rfl⟩
    rcases h.2.2 with hlarge | hnot
    · rw [hfits] at hlarge
      cases hlarge
    · exact hnot hless
  | worse _ _ _ hbest => exact .inr ⟨fun h => h.2.1 hbest, rfl, rfl⟩
  | back hopens _ hless hbest => exact .inl ⟨⟨hopens, hbest, .inr hless⟩, rfl, rfl⟩
  | tooFar _ _ _ hbest => exact .inr ⟨fun h => h.2.1 hbest, rfl, rfl⟩
  | tooFarBack hopens hlarge _ hbest => exact .inl ⟨⟨hopens, hbest, .inl hlarge⟩, rfl, rfl⟩

theorem Taken.yields_or (h : e.Taken t f x model) :
    e.Yields ∧ model = e.record.bestModel ∨ ¬e.Yields ∧ model = e.iterate.model := by
  have hlarge (h : e.iterate.oversized = true) : ¬e.Yields := by
    rintro ⟨-, hfits, -⟩
    rw [h] at hfits
    cases hfits
  cases h with
  | first hopens => exact .inr ⟨fun h => h.1 hopens, rfl⟩
  | better _ _ hless => exact .inr ⟨fun h => h.2.2 hless, rfl⟩
  | worse hopens hfits hless _ => exact .inl ⟨⟨hopens, hfits, hless⟩, rfl⟩
  | back hopens hfits hless _ => exact .inl ⟨⟨hopens, hfits, hless⟩, rfl⟩
  | tooFar _ hover _ _ => exact .inr ⟨hlarge hover, rfl⟩
  | tooFarBack _ hover _ _ => exact .inr ⟨hlarge hover, rfl⟩

omit [Scalar α] in
theorem Framed.measured (h : e.Framed s) : ¬s.record.stage < 0 := by
  rcases h.stage with ⟨hstage, -⟩ | hstage | hstage <;> rw [hstage] <;> decide

theorem Judged.recorded (h : e.Judged c s)
    (hv : s.verdict = .otherOrShorter ∨ s.verdict = .otherOrAccept ∨ s.verdict = .recompute) :
    s.record.stage < 0 ∧ (¬e.Opens ∧ s.record.bestF = e.record.bestF ∧
        s.record.bestModel = e.record.bestModel ∧ s.record.bestStep = e.record.bestStep ∨
      s.Opens) ∨
    ¬s.record.stage < 0 ∧ ∃ t f x, e.Taken t f x s.record.bestModel ∧
      (e.iterate.f₀ ≤ s.record.bestF ∨ s.record.bestStep = t.step) := by
  obtain ⟨t, -, hshrunk | ⟨hframed, hkept⟩⟩ := h.again hv
  · refine .inl ⟨hshrunk.waits, ?_⟩
    rcases hshrunk.best with ⟨hf, hmodel, hstep, -, -, -, hopens⟩ | ⟨-, -, hopens⟩
    · exact .inl ⟨hopens, hf, hmodel, hstep⟩
    · exact .inr hopens
  · refine .inr ⟨hframed.measured, ?_⟩
    rcases hkept with hstays | ⟨hmoved, hmodel, hf, hstep, -⟩
    · obtain ⟨x, htaken⟩ := hstays.taken
      refine ⟨t, s.record.bestF, x, ?_, .inl hstays.no_gain⟩
      have hmodel : s.record.bestModel = s.iterate.model := hstays.model
      rw [hmodel]
      exact htaken
    · refine ⟨t, s.iterate.f, s.iterate.x, ?_, .inr hstep⟩
      have hmodel : s.record.bestModel = s.iterate.model := hmodel
      rw [hmodel]
      exact hmoved

theorem Judged.taken (h : e.Judged c s)
    (hv : s.verdict = .acceptByGradient ∨ s.verdict = .accept) :
    ¬s.record.stage < 0 ∧ ∃ t, t.step = s.trial.step ∧
      e.Taken t s.iterate.f s.iterate.x s.iterate.model := by
  obtain ⟨t, hstep, -, -, hshrunk | ⟨hframed, -, hfinal | hruling⟩⟩ := h
  · have hrecompute : s.verdict = .recompute := hshrunk.verdict
    rw [hrecompute] at hv
    rcases hv with hv | hv <;> cases hv
  · rcases hv with hv | hv <;> rw [hv] at hfinal <;> exact hfinal.elim
  · exact ⟨hframed.measured, t, hstep, (hruling.of_accept hv).1⟩

end Search

end LeastSquares
