import LeastSquares.Proofs.Assess.Flow

namespace LeastSquares

variable {α : Type} [Scalar α] {p : Nat}

namespace Pass

variable {c : Config α} {e : Search α p} {w : Pass α p}

theorem flow_entry (he : e.Ready) : Flow c e e.verdict.entry e.pass := by
  obtain ⟨-, he⟩ := he
  have hpass : e.pass.search = e.atStage e.record.stage := rfl
  have hopens (hv : e.verdict = .otherOrShorter ∨ e.verdict = .otherOrAccept) : ¬e.Opens := by
    rcases hv with hv | hv <;> simp [Search.Opens, hv]
  cases hv : e.verdict <;> rw [hv] at he
  case otherOrShorter =>
    exact ⟨_, hpass, hopens (.inl hv), he.2.2, .inl ⟨he.1, .inl hv⟩⟩
  case otherOrAccept =>
    exact ⟨_, hpass, hopens (.inr hv), he.2.2, .inl ⟨he.1, .inr hv⟩⟩
  case acceptByGradient => exact ⟨hpass, .inl hv⟩
  case accept => exact ⟨hpass, .inr hv⟩
  case recompute => exact ⟨_, hpass, .inr ⟨rfl, hv, he⟩⟩
  all_goals exact he.elim

theorem flow_beginIteration (hw : Flow c e .beginIteration w) :
    Flow c e (w.beginIteration e.verdict).1 (w.beginIteration e.verdict).2 := by
  obtain ⟨hs, hv⟩ := hw
  have hopens : e.Opens := hv.imp_right .inl
  obtain ⟨s, relief, current, change, threshold⟩ := w
  obtain rfl : s = _ := hs
  refine beginIteration_elim (fun hover => ?_) fun hover => ?_
  · have hwaits : (-1 : Int32) < 0 := by decide
    exact ⟨hover, rfl, rfl, rfl, .inr (.inl ⟨rfl, .inr ⟨hv, rfl⟩⟩), hwaits,
      .inr ⟨hopens, rfl, .inr (.inr ⟨rfl, rfl, hv⟩)⟩⟩
  · exact ⟨1, .inl ⟨rfl, rfl⟩, .inl ⟨⟨rfl, rfl, rfl, rfl⟩, .first hopens hover⟩⟩

theorem flow_retryDecision (hw : Flow c e .retryDecision w) :
    Flow c e w.retryDecision.1 w.retryDecision.2 := by
  obtain ⟨k, hs, hopens, hmodel, hk⟩ := hw
  refine retryDecision_elim (fun _ => ⟨k, hs, hopens, hmodel, hk⟩) fun hsame => ?_
  rw [hs] at hsame
  exact absurd hsame hmodel

theorem flow_newModelTried (hw : Flow c e .newModelTried w) :
    Flow c e w.newModelTried.1 w.newModelTried.2 := by
  obtain ⟨k, hs, hopens, hmodel, hk⟩ := hw
  obtain ⟨s, relief, current, change, threshold⟩ := w
  obtain rfl : s = _ := hs
  refine ⟨k + 1, rfl, .inl ⟨hopens, ?_⟩⟩
  rcases hk with ⟨rfl, hv⟩ | ⟨rfl, hv⟩
  · exact .inr (.inl ⟨by decide, .inr ⟨hv, hmodel⟩⟩)
  · exact .inr (.inr ⟨by decide, hv⟩)

omit [Scalar α] in
theorem recomputedStep_resumed (hle : ¬0 < w.search.record.stage)
    (hover : ¬w.search.iterate.oversized = true) (v : Verdict) :
    w.search.record.resume = v → w.recomputedStep =
      let w := w.note { w.search.record with stage := -w.search.record.stage }
      match v with
      | .otherOrShorter => (.retryDecision, w)
      | .otherOrAccept => (.newModelTried, w)
      | .acceptByGradient | .accept => (.measureStep, w)
      | .recompute => (.compareWithBest, w)
      | _ => (.done, w.rule .badInput) := by
  rintro rfl
  unfold recomputedStep
  rw [if_neg hle, if_neg hover]
  rfl

omit [Scalar α] in
theorem not_opens (hv : e.verdict = .recompute)
    (h : e.record.stage = -1 → e.record.resume = .recompute) : ¬e.Opens := by
  rintro (ho | ho | ⟨-, hstage, ho⟩)
  · simp [hv] at ho
  · simp [hv] at ho
  · simp [h hstage] at ho

end Pass

namespace Search

variable (e : Search α p)

/-- A step that is computed again before its trial was measured, as the negated stage says. -/
def Waits : Prop :=
  e.record.stage = -1 ∧ (e.record.resume = .recompute ∧ e.iterate.model = e.record.bestModel ∨
    (e.record.resume = .acceptByGradient ∨ e.record.resume = .accept) ∧
      e.record.bestF = e.iterate.f₀) ∨
  e.record.stage = -2 ∧ (e.record.resume = .recompute ∨
    (e.record.resume = .otherOrShorter ∨ e.record.resume = .otherOrAccept) ∧
      e.iterate.model ≠ e.record.bestModel) ∨
  e.record.stage = -3 ∧ e.record.resume = .recompute

variable {e}

omit [Scalar α] in
theorem Retries.waits (hretries : e.Retries) (hle : ¬0 < e.record.stage) : e.Waits := by
  rcases hretries with ⟨hpos | hpos | hpos, -⟩ | hrest
  · exact absurd (by rw [hpos]; decide) hle
  · exact absurd (by rw [hpos]; decide) hle
  · exact absurd (by rw [hpos]; decide) hle
  · exact hrest

omit [Scalar α] in
theorem Waits.shrunk (hr : e.Waits) (hv : e.verdict = .recompute)
    (hover : e.iterate.oversized = true) :
    e.Shrunk { e.atStage e.record.stage with verdict := .recompute } := by
  have hwaits : e.record.stage < 0 := by
    rcases hr with ⟨hk, -⟩ | ⟨hk, -⟩ | ⟨hk, -⟩ <;> rw [hk] <;> decide
  refine ⟨hover, rfl, rfl, rfl, .inr hr, hwaits, ?_⟩
  have hlater (hne : e.record.stage ≠ -1) : ¬e.Opens :=
    Pass.not_opens hv fun hk => absurd hk hne
  rcases hr with ⟨hk, ⟨hr, -⟩ | ⟨hr, hf⟩⟩ | ⟨hk, -⟩ | ⟨hk, -⟩
  · exact .inl ⟨rfl, rfl, rfl, rfl, rfl, rfl, Pass.not_opens hv fun _ => hr⟩
  · exact .inr ⟨.inr (.inr ⟨hv, hk, hr⟩), hf, .inr (.inr ⟨rfl, hk, hr⟩)⟩
  · exact .inl ⟨rfl, rfl, rfl, rfl, rfl, rfl, hlater (by rw [hk]; decide)⟩
  · exact .inl ⟨rfl, rfl, rfl, rfl, rfl, rfl, hlater (by rw [hk]; decide)⟩

end Search

namespace Pass

variable {c : Config α} {e : Search α p} {w : Pass α p}

theorem flow_resumed (hs : w.search = e.atStage e.record.stage) (hv : e.verdict = .recompute)
    (hretries : e.Retries) (hle : ¬0 < e.record.stage) :
    Flow c e w.recomputedStep.1 w.recomputedStep.2 := by
  have hwaits := hretries.waits hle
  have hle' : ¬0 < w.search.record.stage := by
    rw [hs]
    exact hle
  have hresume : w.search.record.resume = e.record.resume := by
    rw [hs]
    rfl
  by_cases hover : e.iterate.oversized = true
  · have hshrunk := hwaits.shrunk hv hover
    unfold recomputedStep
    rw [if_neg hle', if_pos (by rw [hs]; exact hover)]
    rw [← hs] at hshrunk
    exact hshrunk
  have hover' : ¬w.search.iterate.oversized = true := by
    rw [hs]
    exact hover
  have hfalse : e.iterate.oversized = false := Bool.eq_false_iff.mpr hover
  have hnote : (w.note { w.search.record with stage := -w.search.record.stage }).search =
      e.atStage (-e.record.stage) := by
    rw [note, hs]
    rfl
  have hneg (k : Int32) (hk : e.record.stage = -k) : -e.record.stage = k := by
    rw [hk, Int32.neg_neg]
  have hstep (v : Verdict) (hr : e.record.resume = v) :=
    recomputedStep_resumed hle' hover' v (hresume.trans hr)
  rcases hwaits with ⟨hk, ⟨hr, hm⟩ | ⟨hr, -⟩⟩ | ⟨hk, hr | ⟨hr, hm⟩⟩ | ⟨hk, hr⟩
  · rw [hstep _ hr]
    exact ⟨_, hnote, not_opens hv fun _ => hr, hfalse, .inl ⟨hneg 1 hk, hm⟩⟩
  · have hmeasure : Flow c e .measureStep
        (w.note { w.search.record with stage := -w.search.record.stage }) := by
      rw [hneg 1 hk] at hnote
      refine ⟨1, .inl ⟨rfl, ?_⟩, .inl ⟨?_, ?_⟩⟩ <;> rw [hnote]
      · rfl
      · exact e.own_atStage 1
      · exact .first (.inr (.inr ⟨hv, hk, hr⟩)) hfalse
    rcases hr with hr | hr
    · rw [hstep _ hr]
      exact hmeasure
    · rw [hstep _ hr]
      exact hmeasure
  · rw [hstep _ hr]
    exact ⟨_, hnote, not_opens hv fun _ => hr, hfalse, .inr (.inl (hneg 2 hk))⟩
  · have hne : ¬e.Opens := not_opens hv fun h => by rw [hk] at h; cases h
    have htwo : e.Counts (-e.record.stage) := .inr ⟨hneg 2 hk, hv⟩
    rcases hr with hr | hr
    · rw [hstep _ hr]
      exact ⟨_, hnote, hne, hm, htwo⟩
    · rw [hstep _ hr]
      exact ⟨_, hnote, hne, hm, htwo⟩
  · rw [hstep _ hr]
    exact ⟨_, hnote, not_opens hv fun _ => hr, hfalse, .inr (.inr (hneg 3 hk))⟩

theorem flow_recomputedStep (hw : Flow c e .recomputedStep w) :
    Flow c e w.recomputedStep.1 w.recomputedStep.2 := by
  obtain ⟨k, hs, hk⟩ := hw
  have hstage : w.search.record.stage = k := by rw [hs]; rfl
  have hcheck (hpos : 0 < k) (hopens : ¬e.Opens) (hstaged : e.Staged k) :
      Flow c e w.recomputedStep.1 w.recomputedStep.2 := by
    unfold recomputedStep
    rw [if_pos (by rw [hstage]; exact hpos)]
    exact ⟨k, hs, hopens, hstaged⟩
  rcases hk with ⟨hopens, hstaged⟩ | ⟨rfl, hv, hretries⟩
  · apply hcheck _ hopens hstaged
    rcases hstaged with ⟨rfl, -⟩ | ⟨rfl, -⟩ | ⟨rfl, -⟩ <;> decide
  · by_cases hpos : 0 < e.record.stage
    · have hopens : ¬e.Opens := not_opens hv fun h => by
        rw [h] at hpos
        exact absurd hpos (by decide)
      apply hcheck hpos hopens
      rcases hretries with ⟨h | h | h, hm⟩ | ⟨h, -⟩ | ⟨h, -⟩ | ⟨h, -⟩
      · exact .inl ⟨h, hv, hm⟩
      · exact .inr (.inl ⟨h, .inl hv⟩)
      · exact .inr (.inr ⟨h, hv⟩)
      · rw [h] at hpos
        exact absurd hpos (by decide)
      · rw [h] at hpos
        exact absurd hpos (by decide)
      · rw [h] at hpos
        exact absurd hpos (by decide)
    · exact flow_resumed hs hv hretries hpos

theorem flow_checkOversize (hw : Flow c e .checkOversize w) :
    Flow c e w.checkOversize.1 w.checkOversize.2 := by
  obtain ⟨k, hs, hopens, hk⟩ := hw
  obtain ⟨s, relief, current, change, threshold⟩ := w
  obtain rfl : s = _ := hs
  refine checkOversize_elim (fun hover => ?_) (fun hover hgrowth => ?_) fun hover _ => ?_
  · exact ⟨k, rfl, hopens, hover, hk.tier⟩
  · exact ⟨k, _, _, rfl, hopens, hk.tier, .inr ⟨hover, hgrowth, rfl⟩⟩
  · have hwaits : -k < 0 := by
      rcases hk with ⟨rfl, -⟩ | ⟨rfl, -⟩ | ⟨rfl, -⟩ <;> decide
    refine ⟨hover, rfl, rfl, rfl, ?_, hwaits, .inl ⟨rfl, rfl, rfl, rfl, rfl, rfl, hopens⟩⟩
    rcases hk with ⟨rfl, hv, hm⟩ | ⟨rfl, hv | ⟨hv, hm⟩⟩ | ⟨rfl, hv⟩
    · exact .inr (.inl ⟨rfl, .inl ⟨hv, hm⟩⟩)
    · exact .inr (.inr (.inl ⟨rfl, .inl hv⟩))
    · exact .inr (.inr (.inl ⟨rfl, .inr ⟨hv, hm⟩⟩))
    · exact .inr (.inr (.inr ⟨rfl, hv⟩))

theorem flow_compareWithBest (hw : Flow c e .compareWithBest w) :
    Flow c e w.compareWithBest.1 w.compareWithBest.2 := by
  obtain ⟨k, hs, hopens, hover, hk⟩ := hw
  obtain ⟨s, relief, current, change, threshold⟩ := w
  obtain rfl : s = _ := hs
  refine compareWithBest_elim (fun hbetter => ?_) (fun hworse _ => ?_) fun hworse hmodel => ?_
  · refine ⟨k, ?_, .inl ⟨⟨rfl, rfl, rfl, rfl⟩, .better hopens hover hbetter⟩⟩
    exact hk.imp (fun h => ⟨h.1, rfl⟩) id
  · exact ⟨k, _, true, rfl, hopens, hk, .inl ⟨hover, hworse, rfl⟩⟩
  · exact ⟨k, _, false, rfl, hopens, hk, .inl ⟨hover, hworse, hmodel⟩⟩

theorem flow_restoreBest (hw : Flow c e .restoreBest w) :
    Flow c e w.restoreBest.1 w.restoreBest.2 := by
  obtain ⟨k, m, b, hs, hopens, hk, hback⟩ := hw
  obtain ⟨s, relief, current, change, threshold⟩ := w
  obtain rfl : s = _ := hs
  have hstage : k = 1 ∧ m = e.iterate.model ∨ k = 2 ∨ k = 3 := by
    rcases hk with ⟨hk, hm⟩ | hk
    · rcases hback with ⟨-, -, hm'⟩ | ⟨-, -, hm'⟩
      · exact .inl ⟨hk, hm'.trans hm.symm⟩
      · exact .inl ⟨hk, hm'⟩
    · exact .inr hk
  refine restoreBest_elim (fun hgain => ?_) fun hgain => ?_
  · refine ⟨k, hstage, .inl ⟨⟨rfl, rfl, rfl, rfl⟩, ?_⟩⟩
    rcases hback with ⟨hover, hworse, rfl⟩ | ⟨hover, hgrowth, rfl⟩
    · exact .worse hopens hover hworse hgain
    · exact .tooFar hopens hover hgrowth hgain
  · refine ⟨k, hstage, .inr ⟨⟨rfl, rfl, rfl, rfl, rfl⟩, ?_⟩⟩
    rcases hback with ⟨hover, hworse, rfl⟩ | ⟨hover, hgrowth, rfl⟩
    · exact .back hopens hover hworse hgain
    · exact .tooFarBack hopens hover hgrowth hgain

theorem flow_measureStep (hw : Flow c e .measureStep w) :
    Flow c e w.measureStep.1 w.measureStep.2 := by
  obtain ⟨k, hk, ⟨⟨hrestored, rfl, htrial, hiterate⟩, htaken⟩ |
    ⟨⟨hrestored, rfl, hstep, htrial, hiterate⟩, htaken⟩⟩ := hw
  · have hf : w.search.iterate.f = e.iterate.f := by rw [hiterate]
    have hx : w.search.iterate.x = e.iterate.x := by rw [hiterate]
    refine measureStep_elim (fun _ => ?_) (by simp [hrestored])
    refine ⟨Search.framed_of_iterate hiterate hk, ?_⟩
    rw [Search.Moved, htrial, hf, hx]
    exact htaken
  · have hf : w.search.iterate.f = e.record.bestF := by rw [hiterate]
    have hx₀ : w.search.iterate.x₀ = e.iterate.x₀ := by rw [hiterate]
    refine measureStep_elim (by simp [hrestored]) fun _ => ?_
    refine ⟨Search.framed_of_iterate (by rw [hiterate]) hk, ?_⟩
    dsimp only [Search.Moved]
    rw [hstep, htrial, hf, hx₀]
    exact htaken

end Pass

end LeastSquares
