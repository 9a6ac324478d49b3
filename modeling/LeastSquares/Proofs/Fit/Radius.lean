import LeastSquares.Proofs.Assess.Relief
import LeastSquares.Proofs.Fit.Guided
import LeastSquares.Proofs.Fit.Restart
import LeastSquares.Proofs.Fit.Single

namespace LeastSquares

variable {σ : Type} {n p : Nat}

namespace Setup

variable (s : Setup ℝ σ p) (h : Head ℝ σ n p)

/-- No trial, and none of length zero either, takes the radius to zero. -/
structure Reaches : Prop where
  /-- At the trial, and at the probe that may follow it. -/
  radius : 0 < h.run.search.iterate.radius ∧
    0 < (assess s.config (s.scored h)).iterate.radius
  calls : ∀ q ∈ s.calls h, 0 < q.radius
  /-- With whatever follows it. -/
  followed : ∀ r next, s.followed h = (r, next) → 0 < r.search.iterate.radius
  /-- Whatever factor the next radius is to have. -/
  factor : (s.judged h).search.verdict = .recompute → 0 < (s.judged h).search.record.radiusFactor
  /-- A step that is put back has a length, unless the problem gave the point of the iterate
  itself a lower value than before. -/
  putBack : ∀ w, (s.scored h).Visits s.config .restoreBest w →
    w.search.record.bestF < w.search.iterate.f₀ →
      0 < w.search.record.bestLength ∨ coords w.search.record.bestStep = 0
  /-- The factor for such a step is used only where that length is positive, and is zero
  only where the step changes nothing, which ends the iteration. -/
  relief : ∀ w, (s.scored h).Visits s.config .fletcherRadius w →
    (w.relief = 1 ∨ 0 < (s.scored h).record.bestLength ∧
      w.relief = (s.scored h).trial.length / (s.scored h).record.bestLength) ∧
    (0 < w.relief ∨ w.search.record.change = 0)

variable {s h}

theorem reaches_of_guided (hc : s.config.validate p = .ok ()) (hh : h.Guided) (hs : h.Steady) :
    s.Reaches h where
  radius := ⟨hh.radius, (s.assessed_radius h).symm ▸ hh.radius⟩
  calls := by
    have hlargest : 0 < s.config.initialTrustRadius :=
      Config.pos_of_validate hc (f := .initialTrustRadius) (by decide)
    intro q hq
    unfold calls at hq
    split at hq
    · rcases List.mem_cons.mp hq with rfl | hq
      · exact hlargest
      · obtain rfl := List.mem_singleton.mp hq
        exact hh.radius
    · obtain rfl := List.mem_singleton.mp hq
      exact hh.radius
  followed _ _ hr := s.followed_radius hh hs hc hr
  factor := s.judged_guides hh hs hc
  putBack := by
    intro w hw hgain
    obtain ⟨hopens, hbestF, hf₀, hlength, hstep⟩ := hw.putsBack (s.scored_steady hs).ready
    rw [hbestF, hf₀] at hgain
    rw [hlength, hstep]
    rw [scored_eq] at hopens hgain ⊢
    exact (hh.best (fun hv => hopens (hv.imp_right .inl)) hgain).imp_right And.right
  relief := fun _ hw => hw.relieved (s.scored_steady hs).ready (Config.paced_of_validate hc)
    (s.scored_paced hh hs)

variable (s h) in
noncomputable def retry : Head ℝ σ n p := ⟨h.gradient, h.normal, (s.followed h).1⟩

theorem passes_retry {r₀ : Run ℝ σ n p} {l : List (Head ℝ σ n p)} (hl : s.Passes r₀ (h :: l))
    (hcontinues : s.Continues h) (hagain : (s.followed h).2 = .again) :
    s.Passes r₀ (s.retry h :: h :: l) :=
  hl.again hcontinues (Prod.ext rfl hagain)

theorem retry_putBack (hv : (s.judged h).search.verdict = .recompute)
    (hstage : 0 < (s.judged h).search.record.stage)
    (hmodel : (s.judged h).search.iterate.model = (s.judged h).search.record.bestModel)
    {v : Vector ℝ n} (hfound : s.found (s.retry h) = some v)
    (hworse : (s.judged h).search.record.bestF ≤ objective v) :
    (s.scored (s.retry h)).Visits s.config .restoreBest (s.scored (s.retry h)).pass ∧
      (s.scored (s.retry h)).record = (s.judged h).search.record ∧
      (s.scored (s.retry h)).iterate.f₀ = (s.judged h).search.iterate.f₀ := by
  have hscored := s.scored_eq (s.retry h)
  rw [value, hfound, retry, s.followed_of_recompute hv] at hscored
  rw [retry, s.followed_of_recompute hv, hscored]
  have hcompared := Search.visits_compareWithBest (e := s.scored (s.retry h)) s.config
  rw [retry, s.followed_of_recompute hv, hscored] at hcompared
  refine ⟨(hcompared rfl hv hstage).visits_restoreBest (not_lt.mpr hworse) ?_, rfl, rfl⟩
  exact not_not.mpr hmodel

end Setup

variable {P : Problem ℝ σ p} {initial : Vector ℝ p} {lower upper : Option (Array (Scalar.Side ℝ))}
  {c : Config ℝ} {state : σ} {report : Report ℝ p}

/-- The radius of a fit stays positive, for every problem and whatever the lengths of the
trials. -/
theorem fit_reaches (hscale : c.Scales) (h : (fit P initial lower upper c state).1 = .ok report) :
    ∃ (n : Nat) (s : Setup ℝ σ p) (r₀ : Run ℝ σ n p) (l : List (Head ℝ σ n p))
      (r : Run ℝ σ n p) (o : Outcome), Begun P initial lower upper c state s r₀ ∧
        s.Ran r₀ l r o ∧ report = (s.finish r o).1 ∧ ∀ h ∈ l, s.Reaches h := by
  obtain ⟨n, s, r₀, l, r, o, hbegun, ⟨hl, hend⟩, hreport⟩ := fit_ran h
  have hc := hbegun.valid
  obtain ⟨hradius, hd, hstart⟩ := hbegun.positive
  have hsteady := s.passes_steady hstart hl
  rw [← hbegun.config] at hscale
  have hguided := s.passes_guided hc hscale hradius hd hstart hl
  refine ⟨n, s, r₀, l, r, o, hbegun, ⟨hl, hend⟩, hreport, fun h hh => ?_⟩
  exact Setup.reaches_of_guided hc (hguided h hh) (hsteady h hh)

/-! A first step that is next to no gain, from where every other one is none at all. -/

namespace Ledge

open Single

noncomputable def residual (x : ℝ) : ℝ := if x = 0 then 99999 / 100000 else 1

noncomputable def slope (_ : ℝ) : ℝ := 1

noncomputable abbrev setup : Setup ℝ Unit 1 := Single.setup residual slope config

noncomputable abbrev start : Run ℝ Unit 1 1 := Single.start residual slope config 1

noncomputable def first : Head ℝ Unit 1 1 := setup.opening start

theorem residual_one : residual 1 = 1 := if_neg one_ne_zero

theorem residual_zero : residual 0 = 99999 / 100000 := if_pos rfl

theorem le_residual (x : ℝ) : 99999 / 100000 ≤ residual x := by
  unfold residual
  split <;> norm_num

theorem residual_le (x : ℝ) : |residual x| ≤ 10 := by
  unfold residual
  split <;> norm_num [abs_of_pos]

theorem begun : Begun (.single residual slope) #v[1] none none config () setup start :=
  Single.begun (residual_le 1) (by norm_num [slope]) validate_config (by norm_num)

theorem scored_first : setup.scored first = {
    verdict := .accept
    iterate := ⟨#v[0], #v[1], 1 / 2 * (99999 / 100000 * (99999 / 100000)), 1 / 2, #v[1], 100,
      .gaussNewton, 1, false⟩
    trial := .single 1 1
    record := .new 1 } := by
  have hscored := scored_opening (r := residual) (j := slope) (c := config) (x := 1) (y := 0) rfl
    (by norm_num [slope]) (by rw [residual_one]; norm_num [slope, config, Config.default])
    (by rw [residual_one]; norm_num [slope]) (by norm_num [config, Config.default])
    (residual_le 0)
  rw [first, hscored, residual_one, residual_zero]
  norm_num [slope, config, Config.default]

theorem judged_first : ∃ factor, (setup.judged first).search = {
    verdict := .recompute
    iterate := ⟨#v[0], #v[1], 1 / 2 * (99999 / 100000 * (99999 / 100000)), 1 / 2, #v[1], 100,
      .gaussNewton, 1, false⟩
    trial := .single 1 1
    record := {
      stage := 1
      growth := -1
      restored := false
      switched := false
      resume := .recompute
      bestModel := .gaussNewton
      bestF := 1 / 2 * (99999 / 100000 * (99999 / 100000))
      bestReduction := 1 / 2 * (1 * (1 / 1))
      bestSlope := -(1 * (1 / 1))
      bestLength := |1 / 1|
      bestStep := #v[-(1 / 1)]
      change := relativeStep #v[1] #v[0] #v[1]
      decrease := 1 / 2 - 1 / 2 * (99999 / 100000 * (99999 / 100000))
      radiusFactor := factor } } := by
  have hchange : relativeStep #v[1] #v[0] #v[1] = (1 : ℝ) := by
    rw [relativeStep_single]
    norm_num
  have hsilent : config.Silent (1 / 2) (1 / 2 * (99999 / 100000 * (99999 / 100000)))
      (.single 1 1) (1 : ℝ) := by
    apply silent_config <;> norm_num [Trial.single, abs_of_pos]
  have hslight := Search.Begins.assess_slight (c := config) (e := setup.scored first)
  rw [scored_first] at hslight
  refine ⟨1 / 2 * 1, setup.judged_of_assess ?_ (by rintro ⟨⟩)⟩
  rw [scored_first]
  refine hslight rfl rfl ?_ ?_ (Int32.le_refl 1) ?_ ?_
  · norm_num
  · norm_num [Trial.single, config, Config.default]
  · rw [hchange]
    norm_num [config]
  · rw [hchange]
    exact hsilent

theorem putBack_second : ∃ w, (setup.scored (setup.retry first)).Visits config .restoreBest w ∧
    w.search.record.bestF < w.search.iterate.f₀ ∧ 0 < w.search.record.bestLength := by
  obtain ⟨factor, hjudged⟩ := judged_first
  obtain ⟨y, hfound⟩ := found_eq (c := config) (setup.retry first) residual_le
  have hworse : (setup.judged first).search.record.bestF ≤ objective #v[residual y] := by
    rw [hjudged, objective_single]
    have hle := le_residual y
    dsimp only
    nlinarith
  obtain ⟨hvisits, hrecord, hf₀⟩ := Setup.retry_putBack (by rw [hjudged])
    (by rw [hjudged]; exact (by decide : (0 : Int32) < 1)) (by rw [hjudged]) hfound hworse
  refine ⟨_, hvisits, ?_, ?_⟩
  · change (setup.scored _).record.bestF < (setup.scored _).iterate.f₀
    rw [hrecord, hf₀, hjudged]
    norm_num
  · change 0 < (setup.scored _).record.bestLength
    rw [hrecord, hjudged]
    norm_num

theorem passes_second : setup.Passes start [setup.retry first, first] := by
  obtain ⟨factor, hjudged⟩ := judged_first
  have hfollowed := setup.followed_of_recompute (h := first) (by rw [hjudged])
  have hcontinues := Single.continues (.opened : setup.Passes start [first])
    (by decide : 0 + 1 < 200)
  exact Setup.passes_retry .opened hcontinues (by rw [hfollowed])

end Ledge

theorem fit_reaches_ledge : ∃ report, Single.config.Scales ∧
    (fit (.single Ledge.residual Ledge.slope) #v[1] none none Single.config ()).1 = .ok report ∧
    ∃ (n : Nat) (s : Setup ℝ Unit 1) (r₀ : Run ℝ Unit n 1) (l : List (Head ℝ Unit n 1))
      (r : Run ℝ Unit n 1) (o : Outcome),
        Begun (.single Ledge.residual Ledge.slope) #v[1] none none Single.config () s r₀ ∧
        s.Ran r₀ l r o ∧ report = (s.finish r o).1 ∧ (∀ h ∈ l, s.Reaches h) ∧
        ∃ h ∈ l, ∃ w, (s.scored h).Visits s.config .restoreBest w ∧
          w.search.record.bestF < w.search.iterate.f₀ ∧ 0 < w.search.record.bestLength := by
  have hscale : Single.config.Scales := nofun
  have hreport := Ledge.begun.fit_eq
  obtain ⟨n, s, r₀, l, r, o, hbegun, hran, hfinish, hreaches⟩ := fit_reaches hscale hreport
  obtain ⟨rfl, rfl, rfl⟩ := hbegun.unique Ledge.begun
  have hmem := (hran.suffix Ledge.passes_second).subset List.mem_cons_self
  exact ⟨_, hscale, hreport, 1, _, _, l, r, o, hbegun, hran, hfinish, hreaches, _, hmem,
    Ledge.putBack_second⟩

/-! A problem that changes while the fit stays at its start, where the slope is zero. -/

namespace Drift

open Single

noncomputable def value (k : ℕ) : ℝ := if k = 0 then 1 else if k < 4 then 9 / 10 else 19 / 20

/-- The first residual depends on how often it was asked for, and one of the points has no
Jacobian. -/
noncomputable def problem : Problem ℝ ℕ 1 where
  evaluate x _ k :=
    (.ok ⟨#[value k, x[0]!], if k = 2 then none else some ⟨2, 1, ⟨#v[#v[0, 1]]⟩⟩⟩, k + 1)

noncomputable def point : Linearized ℝ 2 1 := ⟨#v[0], #v[1, 0], ⟨#v[#v[0, 1]]⟩⟩

noncomputable def setup : Setup ℝ ℕ 1 := ⟨problem, none, config⟩

noncomputable def start : Run ℝ ℕ 2 1 := .start config point 1

noncomputable def first : Head ℝ ℕ 2 1 := setup.opening start

noncomputable abbrev second : Head ℝ ℕ 2 1 := setup.retry first

noncomputable abbrev third : Head ℝ ℕ 2 1 := setup.retry second

theorem objective_pair (a : ℝ) : objective #v[a, 0] = 1 / 2 * (a * a) := by
  rw [objective, normSq, dot_eq, dotProduct, Fin.sum_univ_two]
  change 1 / 2 * (a * a + 0 * 0) = _
  ring

theorem isFinite_value (k : ℕ) : Scalar.isFinite (value k) = true := by
  apply isFinite_of_le
  unfold value
  split_ifs <;> norm_num [abs_of_pos]

theorem finite_residuals (k : ℕ) : (#v[value k, 0]).all Scalar.isFinite = true := by
  have hzero : Scalar.isFinite (0 : ℝ) = true := isFinite_of_le (by norm_num)
  simp [isFinite_value, hzero]

theorem finite_objective (k : ℕ) : Scalar.isFinite (objective #v[value k, 0]) = true := by
  rw [objective_pair]
  apply isFinite_of_le
  unfold value
  split_ifs <;> norm_num [abs_of_pos]

theorem residuals_eq (a : Account ℕ) : problem.countedResiduals 2 #v[0] a =
    (.ok #v[value a.state, 0],
      { a with state := a.state + 1, functionEvals := a.functionEvals + 1 }) := by
  have hanswer := Problem.countedResiduals_of_evaluate (P := problem) (x := #v[0])
    (v := #v[value a.state, 0]) (a := a) rfl
  rw [if_pos (finite_residuals _)] at hanswer
  exact Prod.ext hanswer rfl

theorem found_eq {h : Head ℝ ℕ 2 1} (ht : setup.target h = #v[0]) :
    setup.found h = some #v[value h.run.account.state, 0] := by
  have hanswer : setup.problem.countedResiduals 2 #v[0] h.run.account = _ :=
    residuals_eq h.run.account
  unfold Setup.found Setup.answer
  rw [ht, hanswer]
  exact if_pos (finite_objective _)

theorem judged_state {h : Head ℝ ℕ 2 1} (ht : setup.target h = #v[0]) :
    (setup.judged h).account.state = h.run.account.state + 1 := by
  have hanswer : setup.problem.countedResiduals 2 #v[0] h.run.account = _ :=
    residuals_eq h.run.account
  rw [setup.judged_account, Setup.answer, ht, hanswer]

theorem linearization_lost {a : Account ℕ} (ha : a.state = 2) :
    ∃ b, problem.countedLinearization 2 #v[0] a = (.error .noJacobian, b) ∧ b.state = 3 := by
  have hevaluate : problem.evaluate #v[0] .jacobian a.state =
      (.ok ⟨#v[value 2, 0].toArray, none⟩, 3) := by
    rw [ha]
    rfl
  refine ⟨{ a with state := 3, gradientEvals := a.gradientEvals + 1 }, ?_, rfl⟩
  unfold Problem.countedLinearization Problem.linearizationAt
  rw [hevaluate]
  change ((checkedResiduals 2 #v[value 2, 0].toArray >>= fun r =>
    checkedJacobian 2 1 none >>= fun j => pure (r, j)), _) = _
  rw [checkedResiduals_toArray, if_pos (finite_residuals 2)]
  rfl

theorem begun : Begun problem #v[0] none none config 0 setup start := by
  have hinput : checkInput #v[(0 : ℝ)] none none config = .ok none := by
    refine checkInput_of_validate one_ne_zero validate_config fun i => ?_
    rw [Fin.fin_one_eq_zero i]
    exact isFinite_of_le (by norm_num)
  have hjacobian : (⟨#v[#v[0, 1]]⟩ : Dense ℝ 2 1).all Scalar.isFinite = true := by
    have hzero : Scalar.isFinite (0 : ℝ) = true := isFinite_of_le (by norm_num)
    have hone : Scalar.isFinite (1 : ℝ) = true := isFinite_of_le (by norm_num)
    simp [Dense.all, hzero, hone]
  exact ⟨rfl, rfl, hinput, _, point, 1, rfl,
    firstPoint_toArray (by decide) (finite_objective 0) hjacobian, rfl⟩

theorem guided {l : List (Head ℝ ℕ 2 1)} (hl : setup.Passes start l) : ∀ h ∈ l, h.Guided := by
  obtain ⟨hradius, hd, hstart⟩ := begun.positive
  exact setup.passes_guided validate_config nofun hradius hd hstart hl

/-- A trial that is asked for at the minimum of the parabola. -/
structure Rests (h : Head ℝ ℕ 2 1) : Prop where
  place : h.run.search.iterate.x₀ = #v[0]
  model : h.run.search.iterate.model = .gaussNewton
  d : h.run.search.iterate.d = #v[1]
  gradient : h.gradient = #v[0]
  normal : h.normal.get 0 0 = 1
  memory : (Setup.remembered h.run).Serves config h.normal #v[0] #v[1]
  radius : 0 < h.run.search.iterate.radius

theorem clamped_eq (h : Head ℝ ℕ 2 1) : setup.clamped h = (setup.unclamped h).1 := by
  unfold Setup.clamped
  rfl

section

variable {h : Head ℝ ℕ 2 1} (hh : Rests h)
include hh

theorem Rests.unclamped_eq : setup.unclamped h =
    trustStep config h.normal #v[0] #v[1] h.run.search.iterate.radius
      (Setup.remembered h.run) := by
  have hhessian : h.run.hessian h.normal = h.normal := by
    rw [Run.hessian, hh.model]
    rfl
  unfold Setup.unclamped
  rw [hhessian, hh.gradient, hh.d]
  rfl

theorem Rests.clamped_of_fresh (hfresh : (Setup.remembered h.run).isFresh = true) :
    setup.clamped h = .single 0 1 := by
  have hstep : (trustStep config h.normal #v[0] #v[1] h.run.search.iterate.radius
      (Setup.remembered h.run)).1 = .single 0 (h.normal.get 0 0) :=
    trustStep_single hfresh (hh.normal.symm ▸ one_pos) (by norm_num [config, Config.default])
      (by rw [zero_div, abs_zero]; exact hh.radius.le)
  rw [clamped_eq, hh.unclamped_eq, hstep, hh.normal]

theorem Rests.target_eq (hstep : (setup.clamped h).step = #v[0]) : setup.target h = #v[0] := by
  rw [Setup.target, hstep, hh.place, add_single, zero_add]

theorem Rests.clamped_of_stale (hstale : (Setup.remembered h.run).isFresh = false) :
    ∃ a, 0 < a ∧ setup.clamped h = { Trial.zero 1 with parameter := a } := by
  have hpos : 0 < h.normal.get 0 0 := by rw [hh.normal]; exact one_pos
  have hclear : (h.normal.diagonallyScaled #v[1]).Clear := by
    apply Symmetric.clear_single
    rw [h.normal.scaled_single]
    exact hpos
  have hzero : coords #v[(0 : ℝ)] = 0 := by
    rw [coords_single]
    rfl
  have hnewton : coords #v[(0 : ℝ)] = -h.normal.matrix⁻¹.mulVec (coords #v[0]) := by
    rw [hzero, Matrix.mulVec_zero, neg_zero]
  have hshort : Geometry.norm (timesEach #v[(0 : ℝ)] #v[1]) ≤
      (1 + config.phiMax) * h.run.search.iterate.radius := by
    have hlength : Geometry.norm (timesEach #v[(0 : ℝ)] #v[1]) = 0 := by
      rw [norm_eq_zero, coords_timesEach, hzero, zero_mul]
    rw [hlength]
    exact mul_nonneg (by norm_num [config, Config.default]) hh.radius.le
  rw [clamped_eq, hh.unclamped_eq]
  exact (trustStep_newton_again one_scale_pos (Symmetric.posDef_single hpos) hclear hh.memory
    hnewton hshort).2 hstale hzero validate_config (by norm_num [config, Config.default])
    (stretchLoss_le_one validate_config (by norm_num [config, Config.default])) hh.radius

theorem Rests.scored_eq (hstep : (setup.clamped h).step = #v[0]) : setup.scored h = {
    h.run.search with
    trial := setup.clamped h
    iterate := { h.run.search.iterate with
      x := #v[0]
      f := 1 / 2 * (value h.run.account.state * value h.run.account.state)
      oversized := false } } := by
  have htarget := hh.target_eq hstep
  rw [setup.scored_eq, Setup.value, found_eq htarget, htarget, ← objective_pair]
  rfl

theorem Rests.retry (hagain : (setup.followed h).2 = .again) {e : Search ℝ 1}
    (hassess : assess config (setup.scored h) = e) (hv : e.verdict ≠ .probe)
    (hplace : (setup.retry h).run.search.iterate.x₀ = #v[0])
    (hmodel : (setup.retry h).run.search.iterate.model = .gaussNewton)
    (hradius : 0 < (setup.retry h).run.search.iterate.radius) :
    Rests (setup.retry h) ∧ (Setup.remembered (setup.retry h).run).isFresh = false := by
  obtain ⟨-, -, hd, hmemory, hkept⟩ := setup.again_run (h := h) (Prod.ext rfl hagain)
  have hjudged : (setup.judged h).memory = (setup.unclamped h).2 := by
    obtain ⟨search, memory, heq, ⟨-, -, hsame⟩ | ⟨hprobe, -⟩⟩ := setup.judged_eq h
    · rw [heq, hsame, setup.evaluated_memory, Setup.tried_eq]
    · exact absurd (hassess ▸ hprobe) hv
  have hremembered : Setup.remembered (setup.retry h).run = (setup.unclamped h).2 := by
    rw [← hjudged, ← hmemory]
    exact if_neg (not_not.mpr (hmodel.trans (hkept.trans hh.model).symm))
  rw [hremembered, hh.unclamped_eq]
  refine ⟨⟨hplace, hmodel, hd.trans hh.d, hh.gradient, hh.normal, ?_, hradius⟩,
    trustStep_stale _ _ _ _ _ _⟩
  rw [hremembered, hh.unclamped_eq]
  exact .after hh.memory hh.radius

end

theorem opened_first : Rests first ∧ (Setup.remembered first.run).isFresh = true ∧
    first.run.account.state = 1 ∧ first.run.search = {
      verdict := .accept
      iterate := ⟨#v[0], #v[0], 1 / 2, 1 / 2, #v[1], 100, .gaussNewton, 1, false⟩
      trial := .zero 1
      record := .new 1 } := by
  obtain ⟨warnings, hopening⟩ := setup.opening_unscaled rfl point 1
  have hgradient : point.gradient = #v[0] := by
    have hentry : dot #v[(0 : ℝ), 1] #v[1, 0] = 0 := by
      rw [dot_eq, dotProduct, Fin.sum_univ_two]
      change (0 : ℝ) * 1 + 1 * 0 = 0
      norm_num
    rw [← hentry]
    simp [point, Linearized.gradient, Dense.transposeMulVec]
  have hnormal : (point.jacobian.pivotedQr 0).normalMatrix.get 0 0 = 1 := by
    have hdot : dot #v[(0 : ℝ), 1] #v[0, 1] = 1 := by
      rw [dot_eq, dotProduct, Fin.sum_univ_two]
      change (0 : ℝ) * 0 + 1 * 1 = 1
      norm_num
    have hnorm : Geometry.norm #v[(0 : ℝ), 1] = 1 := by
      rw [norm_eq, ← dot_eq, hdot, Real.sqrt_one]
    have hcolumn : point.jacobian.columns[(0 : Fin 1)] = #v[0, 1] := rfl
    rw [Dense.normalMatrix_column two_pos (by rw [hcolumn, hnorm]), hcolumn, hdot]
  have hvalue : objective point.residuals = 1 / 2 := by
    rw [point, objective_pair]
    norm_num
  rw [hgradient, hvalue] at hopening
  have hfirst : first = _ := hopening
  rw [hfirst]
  exact ⟨⟨rfl, rfl, rfl, rfl, hnormal, .fresh rfl, by norm_num [setup, config, Config.default]⟩,
    rfl, rfl, rfl⟩

theorem assess_first : ∃ record, assess config (setup.scored first) = {
    verdict := .accept
    iterate := ⟨#v[0], #v[0], 1 / 2 * (9 / 10 * (9 / 10)), 1 / 2, #v[1], 100, .gaussNewton, 1,
      false⟩
    trial := .single 0 1
    record } := by
  obtain ⟨hrests, hfresh, hstate, hsearch⟩ := opened_first
  have hclamped := hrests.clamped_of_fresh hfresh
  have hvalue : value 1 = 9 / 10 := by norm_num [value]
  have hscored := hrests.scored_eq (by rw [hclamped, Trial.single, zero_div, neg_zero])
  rw [hclamped, hstate, hsearch, hvalue] at hscored
  have hassess := Search.Begins.assess_whole (c := config) (e := setup.scored first)
  rw [hscored] at hassess
  rw [hscored]
  exact hassess rfl rfl (by norm_num [Trial.single, config, Config.default])
    (by norm_num [Trial.single]) (by norm_num [Trial.single])
    (not_lt_absFuncTol (by norm_num [abs_of_pos])) (by norm_num [Trial.single]) rfl

theorem retried_first : ∃ radius record, (setup.followed first).2 = .again ∧
    second.run.account.state = 3 ∧ second.run.search = {
      verdict := .accept
      iterate := ⟨#v[0], #v[0], 1 / 2, 1 / 2, #v[1], radius, .gaussNewton, 1, false⟩
      trial := .single 0 1
      record } := by
  obtain ⟨hrests, hfresh, hstate, -⟩ := opened_first
  obtain ⟨record, hassess⟩ := assess_first
  have hjudged : (setup.judged first).search = _ :=
    setup.judged_of_assess hassess (by rintro ⟨⟩)
  have hclamped := hrests.clamped_of_fresh hfresh
  have haccount := judged_state
    (hrests.target_eq (by rw [hclamped, Trial.single, zero_div, neg_zero]))
  rw [hstate] at haccount
  obtain ⟨b, hanswer, hb⟩ := linearization_lost haccount
  have hfollowed := setup.followed_of_unanswered (h := first) (by rw [hjudged])
    (by rw [hjudged]; exact hanswer)
  have hsearch : second.run.search = { (setup.judged first).search with
      verdict := .accept
      iterate := { (setup.judged first).search.iterate with
        x := (setup.judged first).search.iterate.x₀
        f := (setup.judged first).search.iterate.f₀
        radius := config.decreaseFactor * (setup.judged first).reach } } := by
    rw [second, Setup.retry, hfollowed]
    rfl
  have haccount' : second.run.account = b := by
    rw [second, Setup.retry, hfollowed]
    rfl
  rw [hjudged] at hsearch
  exact ⟨_, record, by rw [hfollowed], by rw [haccount', hb], hsearch⟩

theorem opened_second : ∃ radius record, Rests second ∧
    (Setup.remembered second.run).isFresh = false ∧ setup.Passes start [second, first] ∧
    second.run.account.state = 3 ∧ second.run.search = {
      verdict := .accept
      iterate := ⟨#v[0], #v[0], 1 / 2, 1 / 2, #v[1], radius, .gaussNewton, 1, false⟩
      trial := .single 0 1
      record } := by
  obtain ⟨radius, record, hagain, hstate, hsearch⟩ := retried_first
  obtain ⟨_, hassess⟩ := assess_first
  have hpasses : setup.Passes start [second, first] := Setup.passes_retry .opened
    (setup.continues_of_passes .opened rfl (by decide : 0 + 1 < 200)) hagain
  obtain ⟨hrests, hstale⟩ := opened_first.1.retry hagain hassess (by rintro ⟨⟩)
    (by rw [hsearch]) (by rw [hsearch]) (guided hpasses second List.mem_cons_self).radius
  exact ⟨radius, record, hrests, hstale, hpasses, hstate, hsearch⟩

theorem assess_second : ∃ radius factor a, assess config (setup.scored second) = {
    verdict := .recompute
    iterate := ⟨#v[0], #v[0], 1 / 2 * (9 / 10 * (9 / 10)), 1 / 2, #v[1], radius, .gaussNewton, 1,
      false⟩
    trial := { Trial.zero 1 with parameter := a }
    record := {
      stage := 1
      growth := 1
      restored := false
      switched := false
      resume := .recompute
      bestModel := .gaussNewton
      bestF := 1 / 2 * (9 / 10 * (9 / 10))
      bestReduction := 0
      bestSlope := 0
      bestLength := 0
      bestStep := .replicate 1 0
      change := relativeStep #v[1] #v[0] #v[0]
      decrease := 1 / 2 - 1 / 2 * (9 / 10 * (9 / 10))
      radiusFactor := factor } } := by
  obtain ⟨radius, record, hrests, hstale, -, hstate, hsearch⟩ := opened_second
  obtain ⟨a, ha, hclamped⟩ := hrests.clamped_of_stale hstale
  have hvalue : value 3 = 9 / 10 := by norm_num [value]
  have hscored := hrests.scored_eq (by rw [hclamped]; rfl)
  rw [hclamped, hstate, hsearch, hvalue] at hscored
  have hassess := Search.Begins.assess_cut (c := config) (e := setup.scored second)
  rw [hscored] at hassess
  rw [hscored]
  obtain ⟨factor, hcut⟩ := hassess rfl rfl (by norm_num [Trial.zero]) (by norm_num [Trial.zero])
    (by norm_num [Trial.zero]) (not_lt_absFuncTol (by norm_num [abs_of_pos]))
    (by norm_num [Trial.zero]) ha.ne'
  exact ⟨radius, factor, a, hcut⟩

theorem retried_second : (setup.followed second).2 = .again ∧
    third.run.account.state = 4 ∧ third.run.search.iterate.x₀ = #v[0] ∧
    third.run.search.iterate.model = .gaussNewton := by
  obtain ⟨_, _, hrests, hstale, -, hstate, -⟩ := opened_second
  obtain ⟨radius, factor, a, hassess⟩ := assess_second
  have hjudged : (setup.judged second).search = _ :=
    setup.judged_of_assess hassess (by rintro ⟨⟩)
  have hfollowed := setup.followed_of_recompute (h := second) (by rw [hjudged])
  obtain ⟨b, -, hclamped⟩ := hrests.clamped_of_stale hstale
  have haccount := judged_state (hrests.target_eq (by rw [hclamped]; rfl))
  rw [hstate] at haccount
  rw [third, Setup.retry, hfollowed]
  unfold Run.setRadius
  dsimp only
  rw [hjudged]
  exact ⟨rfl, haccount, rfl, rfl⟩

theorem opened_third : Rests third ∧ (Setup.remembered third.run).isFresh = false ∧
    setup.Passes start [third, second, first] := by
  obtain ⟨_, _, hrests, -, hpasses, -, -⟩ := opened_second
  obtain ⟨_, _, _, hassess⟩ := assess_second
  obtain ⟨hagain, -, hplace, hmodel⟩ := retried_second
  have hpasses' : setup.Passes start [third, second, first] := Setup.passes_retry hpasses
    (setup.continues_of_passes hpasses rfl (by decide : 1 + 1 < 200)) hagain
  obtain ⟨hrests', hstale⟩ := hrests.retry hagain hassess (by rintro ⟨⟩) hplace hmodel
    (guided hpasses' third List.mem_cons_self).radius
  exact ⟨hrests', hstale, hpasses'⟩

theorem putBack_third : ∃ w, (setup.scored third).Visits config .restoreBest w ∧
    w.search.record.bestF < w.search.iterate.f₀ ∧ w.search.record.switched = false ∧
    w.search.trial.length = 0 ∧ w.search.record.bestLength = 0 := by
  obtain ⟨radius, factor, a, hassess⟩ := assess_second
  have hjudged : (setup.judged second).search = _ :=
    setup.judged_of_assess hassess (by rintro ⟨⟩)
  obtain ⟨hrests, hstale, -⟩ := opened_third
  obtain ⟨b, -, hclamped⟩ := hrests.clamped_of_stale hstale
  have hfound := found_eq (hrests.target_eq (by rw [hclamped]; rfl))
  have hworse : (setup.judged second).search.record.bestF ≤
      objective #v[value third.run.account.state, 0] := by
    rw [hjudged, objective_pair, retried_second.2.1]
    norm_num [value]
  obtain ⟨hvisits, hrecord, hf₀⟩ := Setup.retry_putBack (by rw [hjudged])
    (by rw [hjudged]; exact (by decide : (0 : Int32) < 1)) (by rw [hjudged]) hfound hworse
  have hlength : (setup.scored third).trial.length = 0 := by
    rw [hrests.scored_eq (by rw [hclamped]; rfl), hclamped]
    rfl
  rw [hjudged] at hrecord hf₀
  refine ⟨_, hvisits, ?_, rfl, hlength, congrArg Record.bestLength hrecord⟩
  change (setup.scored _).record.bestF < (setup.scored _).iterate.f₀
  rw [hrecord, hf₀]
  norm_num

end Drift

/-- A fit may divide by zero where a step is put back: the problem may lower its value while it
stays at a point without a slope, and then give it a larger one. -/
theorem fit_divides_by_zero : ∃ report, Single.config.Scales ∧
    (fit Drift.problem #v[0] none none Single.config 0).1 = .ok report ∧
    ∃ (s : Setup ℝ ℕ 1) (r₀ : Run ℝ ℕ 2 1) (l : List (Head ℝ ℕ 2 1)) (r : Run ℝ ℕ 2 1)
      (o : Outcome), Begun Drift.problem #v[0] none none Single.config 0 s r₀ ∧
        s.Ran r₀ l r o ∧ report = (s.finish r o).1 ∧
        ∃ h ∈ l, ∃ w, (s.scored h).Visits s.config .restoreBest w ∧
          w.search.record.bestF < w.search.iterate.f₀ ∧ w.search.record.switched = false ∧
          w.search.trial.length = 0 ∧ w.search.record.bestLength = 0 := by
  obtain ⟨n, s, r₀, l, r, o, hbegun, hran, hfinish⟩ := fit_ran Drift.begun.fit_eq
  obtain ⟨rfl, rfl, rfl⟩ := hbegun.unique Drift.begun
  obtain ⟨-, -, hpasses⟩ := Drift.opened_third
  have hmem := (hran.suffix hpasses).subset List.mem_cons_self
  exact ⟨_, nofun, Drift.begun.fit_eq, _, _, l, r, o, hbegun, hran, hfinish, _, hmem,
    Drift.putBack_third⟩

end LeastSquares
