import LeastSquares.Proofs.Assess.Rejected
import LeastSquares.Proofs.Fit.Noted
import LeastSquares.Proofs.Fit.Single

namespace LeastSquares

variable {σ : Type} {n p : Nat}

namespace Setup

variable (s : Setup ℝ σ p)

/-- The trial is no gain, or could not be evaluated, no better step is put back, and the step is
to be computed again for another radius. -/
structure Rejects (h : Head ℝ σ n p) : Prop where
  verdict : (s.judged h).search.verdict = .recompute
  fails : ∀ f ∈ s.value h, h.run.search.iterate.f₀ ≤ f
  remains : (s.scored h).Remains s.config

structure Shortens (h : Head ℝ σ n p) : Prop where
  positive : 0 < (s.judged h).search.record.radiusFactor
  /-- Only where the step leads uphill the factor may be one or more. -/
  less : ¬(s.scored h).Climbs → (s.judged h).search.record.radiusFactor < 1
  /-- And there it is. -/
  more : ∀ f ∈ s.value h, 1 / 2 * (s.clamped h).slope ≤ f - h.run.search.iterate.f₀ →
    f - h.run.search.iterate.f₀ < (s.clamped h).slope →
      1 ≤ (s.judged h).search.record.radiusFactor
  /-- A trial that could not be evaluated is measured only if it was to be a longer one. -/
  unmeasured : s.value h = none →
    (s.judged h).search.record.radiusFactor = s.config.decreaseFactor ∨
      0 < h.run.search.record.growth ∧ h.run.search.iterate.f₀ ≤ h.run.search.record.bestF
  length : s.value h ≠ none → 0 < (s.clamped h).length
  retries : ∃ r, s.followed h = (r, .again) ∧
    r.search.iterate.radius = (s.judged h).search.record.radiusFactor *
      (if 0 < (s.clamped h).length then (s.clamped h).length else h.run.search.iterate.radius) ∧
    (¬(s.scored h).Climbs → 0 < (s.clamped h).length →
      r.search.iterate.radius < (s.clamped h).length)

variable {s} {h : Head ℝ σ n p}

theorem judged_rated (hc : s.config.validate p = .ok ()) (he : s.config.epsilonStep ≤ 1)
    (hs : h.Steady) (hsmall : h.run.search.iterate.f₀ ≤ Scalar.huge) (hr : s.Rejects h) :
    (s.scored h).Rated s.config (s.judged h).search := by
  have hready := (s.scored_steady hs).ready
  have htuner : 0 ≤ s.config.tuner2 := (Config.paced_of_validate hc).tuner2
  have hreduction : 0 ≤ s.config.tuner2 * (s.scored h).trial.reduction := by
    rw [scored_eq]
    exact mul_nonneg htuner ((s.clamped_nonneg hs).2 (stretchLoss_le_one hc he))
  have hrise : (s.scored h).iterate.f₀ ≤ (s.scored h).iterate.f := by
    rw [scored_eq]
    dsimp only
    cases hf : s.value h with
    | none => exact hsmall
    | some f => exact hr.fails f hf
  have hrating := Search.assess_rating (c := s.config) hready hrise hreduction hr.remains
  have hv := hr.verdict
  obtain ⟨search, memory, hjudged, hcase⟩ := s.judged_eq h
  rw [hjudged] at hv ⊢
  rcases hcase with ⟨-, rfl, -⟩ | ⟨hprobe, t, rfl, -⟩
  · dsimp only at hv ⊢
    rw [hv] at hrating
    rcases hrating with hfinal | hrated | ⟨hprobe, -⟩
    · exact hfinal.elim
    · exact hrated
    · cases hprobe
  · have hassessed := assess_assessed (c := s.config) hready (Search.comparable _)
    have hlength : 0 ≤ (assess s.config (s.scored h)).trial.length := by
      rcases id hassessed with hshrunk | ⟨-, hplaced, -⟩
      · exact absurd (hshrunk.verdict.symm.trans hprobe) (by decide)
      · exact hplaced.length_nonneg (s.scored_steady hs) (s.scored_trial hs)
    refine Search.Rated.probed hassessed hprobe hlength ?_ hv
    rcases hrating with hfinal | hrated | ⟨-, hneg⟩
    · exact absurd hprobe hfinal.ne_probe
    · exact .inl hrated
    · exact .inr hneg

theorem Rejects.retries (hr : s.Rejects h) (hs : h.Steady)
    (hlength : (s.judged h).search.trial.length = (s.clamped h).length)
    (hless : ¬(s.scored h).Climbs → (s.judged h).search.record.radiusFactor < 1) :
    ∃ r, s.followed h = (r, .again) ∧
      r.search.iterate.radius = (s.judged h).search.record.radiusFactor *
        (if 0 < (s.clamped h).length then (s.clamped h).length
          else h.run.search.iterate.radius) ∧
      (¬(s.scored h).Climbs → 0 < (s.clamped h).length →
        r.search.iterate.radius < (s.clamped h).length) := by
  have hradius : (s.judged h).search.iterate.radius = h.run.search.iterate.radius := by
    rw [(s.judged_judged hs).1.radius_eq, scored_eq]
  have hreach : (s.judged h).reach = if 0 < (s.clamped h).length then (s.clamped h).length
      else h.run.search.iterate.radius := by
    rw [Run.reach, hlength, hradius]
  refine ⟨(s.judged h).setRadius
    ((s.judged h).search.record.radiusFactor * (s.judged h).reach), ?_, ?_, fun hclimbs hpos => ?_⟩
  · unfold followed follow
    rw [hr.verdict]
  · exact congrArg _ hreach
  · change _ * (s.judged h).reach < _
    rw [hreach, if_pos hpos]
    exact mul_lt_of_lt_one_left hpos (hless hclimbs)

theorem oversized_iff : (s.scored h).iterate.oversized = true ↔ s.value h = none := by
  rw [scored_eq, value, Option.map_eq_none_iff]
  exact Option.isNone_iff_eq_none

theorem clamped_pos (hc : s.config.validate p = .ok ()) (hs : h.Steady) (hh : h.Notes s.config)
    (hfar : s.config.falseConvergeTol < relativeStep (s.scored h).iterate.d
      (s.scored h).iterate.x (s.scored h).iterate.x₀) : 0 < (s.clamped h).length := by
  refine (s.clamped_nonneg hs).1.lt_of_ne fun hzero => ?_
  have htrial : (s.scored h).trial.length = 0 := by
    rw [scored_eq]
    exact hzero.symm
  rw [(s.scored_stills hh hs).trial htrial] at hfar
  exact absurd (Config.paced_of_validate hc).falseConvergeTol (not_le.mpr hfar)

theorem one_le_scored_fletcher {f : ℝ} (hf : s.value h = some f)
    (hmore : 1 / 2 * (s.clamped h).slope ≤ f - h.run.search.iterate.f₀)
    (hless : f - h.run.search.iterate.f₀ < (s.clamped h).slope) :
    1 ≤ (s.scored h).fletcher s.config := by
  have hscored : (s.scored h).iterate.f = f := by
    rw [scored_eq, hf]
    rfl
  apply Search.one_le_fletcher
  · rw [hscored, scored_eq]
    exact hmore
  · rw [hscored, scored_eq]
    exact hless

theorem shortens_of_rejects (hc : s.config.validate p = .ok ()) (he : s.config.epsilonStep ≤ 1)
    (hmin : s.config.radfacMin < 1) (hs : h.Steady) (hh : h.Notes s.config)
    (hsmall : h.run.search.iterate.f₀ ≤ Scalar.huge) (hr : s.Rejects h) : s.Shortens h := by
  have hpaced := Config.paced_of_validate hc
  have htrial : (s.scored h).trial.length = (s.clamped h).length := by rw [scored_eq]
  cases judged_rated hc he hs hsmall hr with
  | shrunk hover hlength hfactor =>
    have hnone := oversized_iff.mp hover
    have hless : (s.judged h).search.record.radiusFactor < 1 := by
      rw [hfactor]
      exact not_le.mp (Config.ranges_of_validate hc).1
    refine ⟨?_, fun _ => hless, fun f hf => ?_, fun _ => .inl hfactor, fun h => absurd hnone h,
      hr.retries hs (hlength.trans htrial) fun _ => hless⟩
    · rw [hfactor]
      exact hpaced.decrease
    · rw [hnone] at hf
      cases hf
  | measured hlength hgrowth hfar hfactor =>
    have hless (hclimbs : ¬(s.scored h).Climbs) :
        (s.judged h).search.record.radiusFactor < 1 := by
      rw [hfactor]
      exact Search.fletcher_lt_one hmin hclimbs
    refine ⟨?_, hless, fun f hvalue hmore hbound => ?_, fun hnone => .inr ?_,
      fun _ => clamped_pos hc hs hh hfar, hr.retries hs (hlength.trans htrial) hless⟩
    · rw [hfactor]
      exact Search.fletcher_pos hpaced.radfacMin
    · rw [hfactor]
      exact one_le_scored_fletcher hvalue hmore hbound
    · have hgrows := hgrowth (oversized_iff.mpr hnone)
      rw [scored_eq] at hgrows
      exact hgrows

theorem scored_small : (s.scored h).iterate.f ≤ Scalar.huge := by
  rw [scored_eq]
  dsimp only
  cases hvalue : s.value h with
  | none => exact le_rfl
  | some f =>
    rw [value, Option.map_eq_some_iff] at hvalue
    obtain ⟨v, hv, rfl⟩ := hvalue
    unfold found at hv
    split at hv
    · split at hv
      · next hfinite =>
        obtain rfl := Option.some.inj hv
        exact (le_abs_self _).trans (isFinite_iff.mp hfinite)
      · cases hv
    · cases hv

variable (s) in
theorem passes_small {r₀ : Run ℝ σ n p} (hstart : r₀.search.verdict = .accept)
    (hr₀ : r₀.search.iterate.f ≤ Scalar.huge) {l : List (Head ℝ σ n p)} (hl : s.Passes r₀ l) :
    ∀ h ∈ l, h.run.search.iterate.f₀ ≤ Scalar.huge := by
  have hsteady := s.passes_steady hstart hl
  have hopening {r : Run ℝ σ n p} (hr : r.search.iterate.f ≤ Scalar.huge) :
      (s.opening r).run.search.iterate.f₀ ≤ Scalar.huge := by
    obtain ⟨_, _, _, _, _, _, -, heq⟩ := s.opening_run r
    rw [heq]
    exact hr
  refine s.passes_invariant hl (hopening hr₀) ?again ?next
  case again =>
    intro h _ r _ hmem hh _ hr
    obtain ⟨_, _, _, _, _, _, _, rfl⟩ := s.again_eq h hr
    dsimp only
    rw [(s.judged_judged (hsteady h hmem)).1.f₀_eq, scored_eq]
    exact hh
  case next =>
    intro h _ r _ hmem hh _ hr
    obtain ⟨hv, _, _, _, _, -, rfl⟩ := s.followed_accepted h hr
    obtain ⟨-, t, -, htaken⟩ := (s.judged_judged (hsteady h hmem)).1.taken hv
    have hf₀ : (s.scored h).iterate.f₀ ≤ Scalar.huge := by
      rw [scored_eq]
      exact hh
    exact hopening (htaken.le scored_small hf₀)

end Setup

variable {P : Problem ℝ σ p} {initial : Vector ℝ p} {lower upper : Option (Array (Scalar.Side ℝ))}
  {c : Config ℝ} {state : σ} {report : Report ℝ p}

theorem Begun.small {s : Setup ℝ σ p} {r₀ : Run ℝ σ n p}
    (h : Begun P initial lower upper c state s r₀) :
    r₀.search.iterate.f ≤ Scalar.huge := by
  obtain ⟨e, l, state', -, hfirst, rfl⟩ := h.first
  obtain ⟨-, -, -, hfinite⟩ := firstPoint_spec hfirst
  exact (le_abs_self _).trans (isFinite_iff.mp hfinite)

/-- A trial of a fit that is rejected makes the radius shorter than its step, unless the step
leads uphill and the objective follows it too closely. -/
theorem fit_shortens (hmin : c.radfacMin < 1) (he : c.epsilonStep ≤ 1)
    (h : (fit P initial lower upper c state).1 = .ok report) :
    ∃ (n : Nat) (s : Setup ℝ σ p) (r₀ : Run ℝ σ n p) (l : List (Head ℝ σ n p))
      (r : Run ℝ σ n p) (o : Outcome), Begun P initial lower upper c state s r₀ ∧
        s.Ran r₀ l r o ∧ report = (s.finish r o).1 ∧
        ∀ h ∈ l, s.Rejects h → s.Shortens h := by
  obtain ⟨n, s, r₀, l, r, o, hbegun, ⟨hl, hend⟩, hreport⟩ := fit_ran h
  obtain ⟨-, -, hstart⟩ := hbegun.positive
  have hsteady := s.passes_steady hstart hl
  have hnotes := s.passes_notes hstart hl
  have hsmall := s.passes_small hstart hbegun.small hl
  rw [← hbegun.config] at hmin he
  refine ⟨n, s, r₀, l, r, o, hbegun, ⟨hl, hend⟩, hreport, fun h hh hr => ?_⟩
  exact Setup.shortens_of_rejects hbegun.valid he hmin (hsteady h hh) (hnotes h hh) (hsmall h hh)
    hr

namespace Overshot

open Single

/-- A residual that is one where its slope of one starts from, and two where this leads to. -/
noncomputable def residual (x : ℝ) : ℝ := if x = 1 then 1 else 2

noncomputable def slope (_ : ℝ) : ℝ := 1

noncomputable def first : Head ℝ Unit 1 1 :=
  (setup residual slope config).opening (start residual slope config 1)

theorem residual_one : residual 1 = 1 := if_pos rfl

theorem residual_zero : residual 0 = 2 := if_neg (by norm_num)

theorem begun : Begun (.single residual slope) #v[1] none none config ()
    (setup residual slope config) (start residual slope config 1) := by
  apply Single.begun
  · rw [residual_one]
    norm_num
  · norm_num [slope]
  · exact validate_config
  · norm_num

theorem scored_first : (setup residual slope config).scored first = {
    verdict := .accept
    iterate := ⟨#v[0], #v[1], 2, 1 / 2, #v[1], 100, .gaussNewton, 1, false⟩
    trial := .single 1 1
    record := .new 1 } := by
  have hscored := scored_opening (r := residual) (j := slope) (c := config) (x := 1) (y := 0) rfl
    (by norm_num [slope]) (by rw [residual_one]; norm_num [slope, config, Config.default])
    (by rw [residual_one]; norm_num [slope]) (by norm_num [config, Config.default])
    (by rw [residual_zero]; norm_num)
  rw [first, hscored, residual_one, residual_zero]
  norm_num [slope, config, Config.default]

theorem verdict_first : ((setup residual slope config).judged first).search.verdict =
    .recompute := by
  have hchange : relativeStep #v[1] #v[0] #v[1] = (1 : ℝ) := by
    rw [relativeStep_single]
    norm_num
  have hsilent : config.Silent (1 / 2) (1 / 2) (.single 1 1) (1 : ℝ) := by
    apply silent_config <;> norm_num [Trial.single, abs_of_pos]
  obtain ⟨record, hlost⟩ := Search.Begins.assess_lost (c := config) (e := {
    verdict := .accept
    iterate := ⟨#v[0], #v[1], 2, 1 / 2, #v[1], 100, .gaussNewton, 1, false⟩
    trial := .single 1 1
    record := .new 1 }) rfl rfl (by norm_num) (by norm_num [Trial.single, config, Config.default])
    (Int32.le_refl 1) (by rw [hchange]; norm_num [config]) (by rw [hchange]; exact hsilent)
  rw [← scored_first] at hlost
  rw [(setup residual slope config).judged_of_assess hlost (by rintro ⟨⟩)]

theorem rejects_first : (setup residual slope config).Rejects first where
  verdict := verdict_first
  fails := by
    intro f hf
    have hf : (setup residual slope config).value first = some f := hf
    have hscored := congrArg Search.iterate scored_first
    rw [Setup.scored_eq, hf] at hscored
    obtain ⟨hvalue, hstart⟩ : f = 2 ∧ first.run.search.iterate.f₀ = 1 / 2 :=
      ⟨congrArg Iterate.f hscored, congrArg Iterate.f₀ hscored⟩
    rw [hvalue, hstart]
    norm_num
  remains := by
    intro w hw
    rw [scored_first] at hw
    exact absurd (.inr (.inl rfl)) (hw.putsBack ⟨.inl rfl, trivial⟩).1

end Overshot

theorem fit_shortens_overshot : ∃ report, Single.config.radfacMin < 1 ∧
    Single.config.epsilonStep ≤ 1 ∧
    (fit (.single Overshot.residual Overshot.slope) #v[1] none none Single.config ()).1 =
      .ok report ∧
    ∃ (n : Nat) (s : Setup ℝ Unit 1) (r₀ : Run ℝ Unit n 1) (l : List (Head ℝ Unit n 1))
      (r : Run ℝ Unit n 1) (o : Outcome),
        Begun (.single Overshot.residual Overshot.slope) #v[1] none none Single.config () s r₀ ∧
        s.Ran r₀ l r o ∧ report = (s.finish r o).1 ∧
        (∃ h ∈ l, s.Rejects h) ∧ ∀ h ∈ l, s.Rejects h → s.Shortens h := by
  have hmin : Single.config.radfacMin < 1 := by norm_num [Single.config, Config.default]
  have he : Single.config.epsilonStep ≤ 1 := by norm_num [Single.config, Config.default]
  have hreport := Overshot.begun.fit_eq
  obtain ⟨n, s, r₀, l, r, o, hbegun, hran, hfinish, hshortens⟩ := fit_shortens hmin he hreport
  obtain ⟨rfl, rfl, rfl⟩ := hbegun.unique Overshot.begun
  exact ⟨_, hmin, he, hreport, 1, _, _, l, r, o, hbegun, hran, hfinish,
    ⟨_, hran.1.opening_mem, Overshot.rejects_first⟩, hshortens⟩

end LeastSquares
