import LeastSquares.Proofs.Assess.Noted
import LeastSquares.Proofs.Fit.Guided
import LeastSquares.Proofs.Fit.Single

namespace LeastSquares

variable {σ : Type} {n p : Nat}

theorem relativeStep_still {d step : Vector ℝ p} (h : coords d * coords step = 0)
    (x₀ : Vector ℝ p) : relativeStep d (x₀ + step) x₀ = 0 := by
  refine relativeStep_eq_zero fun i => ?_
  have hplace : (x₀ + step)[i] - x₀[i] = step[i] := by simp
  rw [hplace]
  exact congrFun h i

/-- What is remembered and noted before a trial, whatever the scale is. -/
structure Head.Notes (c : Config ℝ) (h : Head ℝ σ n p) : Prop where
  memory : h.run.memory.Measures
  best : ¬h.run.search.Opens → h.run.search.record.bestF < h.run.search.iterate.f₀ →
    h.run.search.record.bestLength = 0 →
      relativeStep h.run.search.iterate.d
        (h.run.search.iterate.x₀ + h.run.search.record.bestStep) h.run.search.iterate.x₀ = 0
  tells : h.run.search.Tells c

namespace Setup

variable (s : Setup ℝ σ p) (h : Head ℝ σ n p)

/-- A false convergence comes with a small change of the point that is left. Only where a trivial
gain is put back it is the last trial that was near. -/
def Vouches : Prop :=
  let j := (s.judged h).search
  j.verdict = .falseConverged →
    relativeStep j.iterate.d j.iterate.x j.iterate.x₀ ≤ s.config.falseConvergeTol ∨
      (s.scored h).Strays s.config j ∧
        relativeStep j.iterate.d (s.target h) j.iterate.x₀ ≤ s.config.falseConvergeTol

variable {h}

theorem scored_tells (hh : h.Notes s.config) : (s.scored h).Tells s.config := by
  rw [scored_eq]
  exact hh.tells

section

variable (hh : h.Notes s.config) (hs : h.Steady)
include hh hs

theorem clamped_still (hzero : (s.clamped h).length = 0) :
    coords h.run.search.iterate.d * coords (s.clamped h).step = 0 := by
  obtain heq | ⟨step, heq⟩ := s.clamped_cases h
  · rw [heq] at hzero ⊢
    have hstep : coords (s.unclamped h).1.step = 0 :=
      trustStep_idle (remembered_measures hh.memory) (remembered_nonneg hs.memory) hzero
    rw [hstep, mul_zero]
  · rw [heq] at hzero ⊢
    obtain ⟨hstep, hlength, -⟩ := rescored_length (s.unclamped h).1 h.gradient
      (h.run.hessian h.normal) h.run.search.iterate.d step
    rw [hstep, ← coords_timesEach]
    exact norm_eq_zero.mp (hlength.symm.trans hzero)

theorem scored_stills : (s.scored h).Stills := by
  rw [scored_eq]
  exact ⟨rfl, fun hzero => relativeStep_still (s.clamped_still hh hs hzero) _, hh.best⟩

theorem judged_noted :
    ((s.judged h).search.record.stage < 0 ∧
        (s.judged h).search.record.change = (s.scored h).record.change ∨
      ¬(s.judged h).search.record.stage < 0 ∧ (s.scored h).Marks s.config (s.judged h).search) ∧
    ((s.judged h).search.verdict = .falseConverged →
      (s.judged h).search.record.change ≤ s.config.falseConvergeTol ∨
        relativeStep (s.judged h).search.iterate.d (s.judged h).search.iterate.x
          (s.judged h).search.iterate.x₀ = 0) := by
  have he := s.scored_steady hs
  have hassessed := assess_assessed (c := s.config) he.ready (Search.comparable _)
  have hnoted := Search.assess_noted (c := s.config) he.ready (Search.comparable _)
    (s.scored_tells hh)
  obtain ⟨search, memory, hjudged, hcase⟩ := s.judged_eq h
  rw [hjudged]
  rcases hcase with ⟨-, rfl, -⟩ | ⟨hv, t, rfl, -⟩
  · exact ⟨hnoted.marks, fun hfalse => .inl (hnoted.tested hfalse)⟩
  rcases id hassessed with hshrunk | ⟨hframed, hplaced, -⟩
  · exact absurd (hshrunk.verdict.symm.trans hv) (by decide)
  have hlength := hplaced.length_nonneg he (s.scored_trial hs)
  obtain ⟨hiterate, hmarks, hfalse⟩ := hnoted.probed hassessed hv hlength t
  refine ⟨.inr hmarks, fun hv => (hfalse hv).imp_right fun hzero => ?_⟩
  dsimp only
  rw [hiterate, hframed.d, hframed.x₀]
  exact hplaced.still (s.scored_stills hh hs) hzero

theorem vouches_of_notes (hc : s.config.validate p = .ok ()) : s.Vouches h := by
  unfold Vouches
  intro j hfalse
  have htol : 0 ≤ s.config.falseConvergeTol := (Config.paced_of_validate hc).falseConvergeTol
  obtain ⟨hmarks, htested⟩ := s.judged_noted hh hs
  obtain ⟨hjudged, -⟩ := s.judged_judged hs
  have hx₀ : j.iterate.x₀ = (s.scored h).iterate.x₀ := hjudged.x₀_eq
  have hd : j.iterate.d = (s.scored h).iterate.d := hjudged.d_eq
  have hmarks : (s.scored h).Marks s.config j := by
    obtain ⟨t, -, -, -, hshrunk | ⟨hframed, -⟩⟩ := hjudged
    · exact absurd (hshrunk.verdict.symm.trans hfalse) (by decide)
    · exact (hmarks.resolve_left fun h => hframed.measured h.1).2
  rcases htested hfalse with hsmall | hzero
  · cases hmarks with
    | point hchange =>
      refine .inl ?_
      rw [hd, hx₀, ← hchange]
      exact hsmall
    | stayed hx _ =>
      refine .inl ?_
      rw [hx₀, hx, relativeStep_self]
      exact htol
    | putBack hstrays =>
      have htarget : (s.scored h).iterate.x = s.target h := by rw [scored_eq]
      refine .inr ⟨hstrays, ?_⟩
      rw [hd, hx₀, ← htarget, ← hstrays.change]
      exact hsmall
  · exact .inl (hzero.le.trans htol)

theorem notes_again {r : Run ℝ σ n p} (hr : s.followed h = (r, .again)) :
    Head.Notes s.config ⟨h.gradient, h.normal, r⟩ := by
  obtain ⟨hmarks, -⟩ := s.judged_noted hh hs
  obtain ⟨hjudged, -⟩ := s.judged_judged hs
  have hmemory := s.judged_measures hh.memory hs
  have hstills := s.scored_stills hh hs
  have hx₀ := hjudged.x₀_eq
  have hf₀ := hjudged.f₀_eq
  have hd := hjudged.d_eq
  have hbest (hv : (s.judged h).search.verdict = .otherOrShorter ∨
      (s.judged h).search.verdict = .otherOrAccept ∨ (s.judged h).search.verdict = .recompute)
      (hgain : (s.judged h).search.record.bestF < (s.judged h).search.iterate.f₀)
      (hzero : (s.judged h).search.record.bestLength = 0) :
      relativeStep (s.judged h).search.iterate.d ((s.judged h).search.iterate.x₀ +
        (s.judged h).search.record.bestStep) (s.judged h).search.iterate.x₀ = 0 := by
    rw [hf₀] at hgain
    rw [hx₀, hd]
    refine hjudged.best_holds (q := fun step length _ => length = 0 →
      relativeStep (s.scored h).iterate.d ((s.scored h).iterate.x₀ + step)
        (s.scored h).iterate.x₀ = 0) ?_ hstills.best hv hgain hzero
    rw [← hstills.place]
    exact hstills.trial
  have htells := hjudged.tells hstills (s.scored_tells hh) hmarks
  have hcases := s.followed_again h hr
  generalize s.judged h = j at hmemory hbest htells hcases
  rcases hcases with ⟨hv, rfl⟩ | ⟨hv, rfl⟩ | ⟨-, e, a, -, rfl⟩
  · exact ⟨hmemory, fun _ => hbest (hv.imp_right .inl), htells (hv.imp_right .inl)⟩
  · exact ⟨hmemory, fun _ => hbest (.inr (.inr hv)), htells (.inr (.inr hv))⟩
  · exact ⟨hmemory, fun hnot => absurd (.inr (.inl rfl)) hnot,
      fun hnot => absurd (.inr (.inl rfl)) hnot⟩

end

theorem notes_opening {r : Run ℝ σ n p} (hr : r.search.verdict = .acceptByGradient ∨
    r.search.verdict = .accept) : (s.opening r).Notes s.config := by
  obtain ⟨_, _, _, _, _, _, -, heq⟩ := s.opening_run r
  refine ⟨?_, fun hopens => ?_, fun hopens => ?_⟩
  · rw [heq]
    exact StepMemory.measures_reset _
  · rw [heq] at hopens
    exact absurd (hr.imp_right .inl) hopens
  · rw [heq] at hopens
    exact absurd (hr.imp_right .inl) hopens

theorem passes_notes {r₀ : Run ℝ σ n p} (hstart : r₀.search.verdict = .accept)
    {l : List (Head ℝ σ n p)} (hl : s.Passes r₀ l) : ∀ h ∈ l, h.Notes s.config := by
  have hsteady := s.passes_steady hstart hl
  refine s.passes_invariant hl (s.notes_opening (.inr hstart)) ?again ?next
  case again =>
    intro h _ r _ hmem hh _ hr
    exact s.notes_again hh (hsteady h hmem) hr
  case next =>
    intro h _ r _ _ _ _ hr
    obtain ⟨hv, _, _, _, _, -, rfl⟩ := s.followed_accepted h hr
    exact s.notes_opening hv

theorem ends_falseConverged {r : Run ℝ σ n p} (hend : s.Ends h r .falseConverged) :
    r = s.judged h ∧ (s.judged h).search.verdict = .falseConverged := by
  generalize ho : Outcome.falseConverged = o at hend
  cases hend with
  | limit => cases ho
  | exhausted => cases ho
  | finished _ hr =>
    rcases s.followed_finished _ hr with ⟨-, hstop⟩ | ⟨-, heq, hv⟩
    · rw [hstop] at ho
      cases ho
    · refine ⟨heq, ?_⟩
      rw [← ho] at hv
      cases hverdict : (s.judged h).search.verdict <;> rw [hverdict] at hv <;>
        first | rfl | cases hv

end Setup

variable {P : Problem ℝ σ p} {initial : Vector ℝ p} {lower upper : Option (Array (Scalar.Side ℝ))}
  {c : Config ℝ} {state : σ} {report : Report ℝ p}

/-- At every trial of a fit a false convergence is one of the point that is left, unless a
trivial gain is put back: then it is one of the last trial, which was no better. A fit that
reports one leaves this point. -/
theorem fit_vouches (h : (fit P initial lower upper c state).1 = .ok report) :
    ∃ (n : Nat) (s : Setup ℝ σ p) (r₀ : Run ℝ σ n p) (l : List (Head ℝ σ n p))
      (r : Run ℝ σ n p) (o : Outcome), Begun P initial lower upper c state s r₀ ∧
        s.Ran r₀ l r o ∧ report = (s.finish r o).1 ∧ (∀ h ∈ l, s.Vouches h) ∧
        (o = .falseConverged → ∃ h ∈ l.head?, r = s.judged h ∧
          (s.judged h).search.verdict = .falseConverged) := by
  obtain ⟨n, s, r₀, l, r, o, hbegun, ⟨hl, hend⟩, hreport⟩ := fit_ran h
  obtain ⟨-, -, hstart⟩ := hbegun.positive
  have hsteady := s.passes_steady hstart hl
  have hnotes := s.passes_notes hstart hl
  refine ⟨n, s, r₀, l, r, o, hbegun, ⟨hl, hend⟩, hreport, fun h hh => ?_, ?_⟩
  · exact s.vouches_of_notes (hnotes h hh) (hsteady h hh) hbegun.valid
  · rintro rfl
    obtain ⟨h, hh, hend⟩ := hend
    exact ⟨h, hh, s.ends_falseConverged hend⟩

namespace Zigzag

open Single

/-- So little is gained on the way back that both of its trials are nothing to go by. -/
noncomputable def slight : ℝ := -199999 / 100000

theorem judged_second_slight : ∃ radius factor, 4 ≤ radius ∧
    ((setup slight).judged (second slight)).search =
      back slight .otherOrShorter radius factor := by
  obtain ⟨radius, record, hradius, hscored⟩ := scored_second slight (by norm_num [slight])
  have hchange : relativeStep #v[1] #v[2] #v[4] = (1 / 3 : ℝ) := by
    rw [relativeStep_single]
    norm_num
  have hsilent : config.Silent 2 (1 / 2 * (slight * slight)) (.single 2 1) (1 / 3 : ℝ) := by
    apply silent_config <;> norm_num [slight, Trial.single, abs_of_pos]
  have hassess : assess config ((setup slight).scored (second slight)) =
      back slight .otherOrShorter radius (1 / 2 * 1) := by
    rw [hscored]
    have hstage : ¬(2 : Int32) ≤ 1 := by decide
    refine (Search.Begins.assess_slightOther ?_ ?_ ?_ ?_ hstage ?_ ?_).trans ?_
    · rfl
    · rfl
    · norm_num [slight]
    · norm_num [slight, Trial.single, config, Config.default]
    · rw [hchange]
      norm_num [config]
    · rw [hchange]
      exact hsilent
    · rw [hchange]
      norm_num [back, Trial.single]
  exact ⟨radius, _, hradius, (setup slight).judged_of_assess hassess (by rintro ⟨⟩)⟩

theorem judged_third_slight : ∃ radius factor trial record,
    ((setup slight).judged (second slight)).search =
      back slight .otherOrShorter radius factor ∧
    ((setup slight).judged (third slight)).search = {
      verdict := .falseConverged
      iterate := (back slight .otherOrShorter radius factor).iterate
      trial
      record } := by
  obtain ⟨radius, factor, hradius, hsecond⟩ := judged_second_slight
  have hscored := scored_third slight (.inl rfl) hsecond rfl rfl hradius
  have hchange : relativeStep (.replicate 1 1) #v[3] #v[4] = (1 / 7 : ℝ) :=
    (relativeStep_single 3 4).trans (by norm_num)
  have hassess : ∃ record, assess config ((setup slight).scored (third slight)) = {
      verdict := .falseConverged
      iterate := (back slight .otherOrShorter radius factor).iterate
      trial := ((setup slight).scored (third slight)).recalled
      record } := by
    rw [hscored]
    refine (Search.assess_backNear ?_ ?_ ?_ ?_ ?_ ?_ ?_ ?_ ?_ ?_).imp
      fun record hback => hback.trans ?_
    · exact .inl rfl
    · rfl
    · rfl
    · rintro ⟨⟩
    · norm_num [back, slight]
    · norm_num [back, slight]
    · rfl
    · norm_num [back, slight, config, Config.default]
    · rw [hchange]
      norm_num [config]
    · rw [hchange]
      apply silent_config <;> norm_num [back, slight, Search.recalled, Trial.single, abs_of_pos]
    · rw [add_single]
      norm_num [back]
  obtain ⟨record, hassess⟩ := hassess
  exact ⟨radius, factor, _, record, hsecond, (setup slight).judged_of_assess hassess (by rintro ⟨⟩)⟩

theorem ran_slight : ∃ r, (setup slight).Ran (start slight)
    [third slight, second slight, first slight] r .falseConverged := by
  obtain ⟨radius, factor, trial, record, hsecond, hthird⟩ := judged_third_slight
  have hpasses := passes_third slight (.inl rfl) hsecond
  have hfollowed := (setup slight).followed_of_outcome (third slight) (o := .falseConverged)
    (by rw [hthird]; rfl)
  exact ⟨_, hpasses, third slight, rfl,
    .finished (continues hpasses (by decide : 2 + 1 < 200)) hfollowed⟩

theorem far_third_slight : (setup slight).config.falseConvergeTol <
    relativeStep ((setup slight).judged (third slight)).search.iterate.d
      ((setup slight).judged (third slight)).search.iterate.x
      ((setup slight).judged (third slight)).search.iterate.x₀ := by
  obtain ⟨radius, factor, trial, record, -, hthird⟩ := judged_third_slight
  have htol : (setup slight).config.falseConvergeTol = 1 / 5 := rfl
  have hchange : relativeStep (.replicate 1 1) #v[2] #v[4] = (1 / 3 : ℝ) :=
    (relativeStep_single 2 4).trans (by norm_num)
  rw [htol, hthird]
  refine lt_of_lt_of_eq ?_ hchange.symm
  norm_num

end Zigzag

theorem fit_vouches_zigzag : ∃ report,
    (fit (.single (Zigzag.residual Zigzag.slight) Zigzag.slope) #v[0] none none Single.config
      ()).1 = .ok report ∧
    ∃ (n : Nat) (s : Setup ℝ Unit 1) (r₀ : Run ℝ Unit n 1) (l : List (Head ℝ Unit n 1))
      (r : Run ℝ Unit n 1) (o : Outcome),
        Begun (.single (Zigzag.residual Zigzag.slight) Zigzag.slope) #v[0] none none Single.config
          () s r₀ ∧
        s.Ran r₀ l r o ∧ report = (s.finish r o).1 ∧ (∀ h ∈ l, s.Vouches h) ∧
        o = .falseConverged ∧ ∃ h ∈ l.head?, r = s.judged h ∧
          (s.judged h).search.verdict = .falseConverged ∧
          s.config.falseConvergeTol < relativeStep (s.judged h).search.iterate.d
            (s.judged h).search.iterate.x (s.judged h).search.iterate.x₀ := by
  have hreport := (Zigzag.begun Zigzag.slight).fit_eq
  obtain ⟨n, s, r₀, l, r, o, hbegun, hran, hfinish, hvouches, hend⟩ := fit_vouches hreport
  obtain ⟨rfl, rfl, rfl⟩ := hbegun.unique (Zigzag.begun Zigzag.slight)
  obtain ⟨r', hran'⟩ := Zigzag.ran_slight
  obtain ⟨rfl, rfl, rfl⟩ := hran.unique hran'
  obtain ⟨h, hh, hlast, hverdict⟩ := hend rfl
  obtain rfl := Option.some.inj hh
  exact ⟨_, hreport, 1, _, _, _, _, _, hbegun, hran, hfinish, hvouches, rfl, _, rfl, hlast,
    hverdict, Zigzag.far_third_slight⟩

end LeastSquares
