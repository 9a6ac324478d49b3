import LeastSquares.Proofs.Fit.Halted
import LeastSquares.Proofs.Fit.Reported

namespace LeastSquares

variable {σ : Type} {n p : Nat}

/-- The Jacobian is a function of the parameters wherever it can be had. -/
def Problem.Derives (P : Problem ℝ σ p) (J : Vector ℝ p → AnyDense ℝ) : Prop :=
  ∀ x mode state e, (P.evaluate x mode state).1 = .ok e → ∀ j, e.jacobian = some j → j = J x

theorem Linearized.Answered.jacobian {P : Problem ℝ σ p} {J : Vector ℝ p → AnyDense ℝ}
    (hJ : P.Derives J) {l : Linearized ℝ n p} (hl : l.Answered P) :
    (J l.x).shaped? n p = some l.jacobian := by
  obtain ⟨state, e, j, he, -, hj, hshape⟩ := hl
  rw [← hJ l.x _ state e he j hj]
  exact hshape

namespace Setup

variable (s : Setup ℝ σ p) {h : Head ℝ σ n p} {R : Vector ℝ p → Array ℝ} {r₀ r : Run ℝ σ n p}
  {l : List (Head ℝ σ n p)} {o : Outcome} {S : Set (Vector ℝ p × Vector ℝ n)}

/-- The evaluations of a run that had residuals, at its start and at its trials. -/
def samples (r₀ : Run ℝ σ n p) (l : List (Head ℝ σ n p)) : Set (Vector ℝ p × Vector ℝ n) :=
  {t | t = (r₀.base.x, r₀.base.residuals) ∨
    ∃ h ∈ l, s.Continues h ∧ s.target h = t.1 ∧ s.found h = some t.2}

theorem judged_sampled (hS : ∀ v, s.found h = some v → (s.target h, v) ∈ S)
    (hh : h.run.Sampled S) : (s.judged h).Sampled S := by
  have hbase : ((s.judged h).base.x, (s.judged h).base.residuals) ∈ S := by
    rw [judged_base]
    exact hh.base
  cases hv : s.found h with
  | none =>
    obtain ⟨htrials, hbest⟩ := s.judged_of_not_found hv
    refine ⟨hbase, ?_, ?_⟩
    · rw [hbest]
      exact hh.best
    · rw [htrials]
      exact hh.trials
  | some v =>
    obtain ⟨htrials, hbest⟩ := s.judged_of_found hv
    refine ⟨hbase, ?_, ?_⟩
    · rcases hbest with ⟨-, hbest⟩ | ⟨-, hbest⟩ <;> rw [hbest]
      · exact hS v hv
      · exact hh.best
    · rw [htrials]
      exact List.forall_mem_cons.mpr ⟨hS v hv, hh.trials⟩

theorem sampled_opening (hr : r.Sampled S) : (s.opening r).run.Sampled S := by
  obtain ⟨_, _, _, _, _, _, -, heq⟩ := s.opening_run r
  rw [heq]
  exact ⟨hr.base, hr.best, fun t ht => absurd ht List.not_mem_nil⟩

theorem sampled_again (hjudged : (s.judged h).Sampled S) (hr : s.followed h = (r, .again)) :
    r.Sampled S := by
  obtain ⟨_, _, _, _, _, _, _, rfl⟩ := s.again_eq h hr
  exact ⟨hjudged.base, hjudged.best, hjudged.trials⟩

section

variable (hP : s.problem.Answers R) (hloss : stretchLoss s.config ≤ 1) (hc : 0 ≤ s.config.tuner2)
include hP hloss hc

theorem passed_sampled (hs : h.Steady) (hh : h.Known R) (hjudged : (s.judged h).Sampled S)
    (hr : s.Passed h r) : r.Sampled S := by
  have hknown := s.judged_known hP hh.run
  obtain ⟨hv, v, j, a, state, hj, rfl⟩ := hr
  obtain ⟨-, ⟨u, hu, -⟩, -⟩ :=
    (s.judged_judged hs).1.accepted hc (s.scored_backed hloss hs hh) hv
  have hsame : v.toArray = u.toArray :=
    (hP.linearization (congrArg Prod.fst hj)).trans (hknown.trials _ hu).1.symm
  refine ⟨?_, hjudged.best, hjudged.trials⟩
  change ((s.judged h).search.iterate.x, v) ∈ S
  rw [Vector.toArray_inj.mp hsame]
  exact hjudged.trials _ hu

theorem passes_sampled (hr₀ : r₀.Settled R) (hstart : r₀.search.verdict = .accept)
    (hsampled : r₀.Sampled S) (hl : s.Passes r₀ l)
    (hS : ∀ h ∈ l, s.Continues h → ∀ v, s.found h = some v → (s.target h, v) ∈ S) :
    ∀ h ∈ l, h.run.Sampled S := by
  have hknown := s.passes_known hP hloss hc hr₀ hstart hl
  refine s.passes_invariant hl (s.sampled_opening hsampled) ?again ?next
  case again =>
    intro h _ r _ hmem hh hcontinues hr
    exact s.sampled_again (s.judged_sampled (hS h hmem hcontinues) hh) hr
  case next =>
    intro h _ r _ hmem hh hcontinues hr
    have hjudged := s.judged_sampled (hS h hmem hcontinues) hh
    obtain ⟨hsteady, hh⟩ := hknown h hmem
    exact s.sampled_opening
      (s.passed_sampled hP hloss hc hsteady hh hjudged (s.followed_accepted h hr))

theorem ends_sampled (hs : h.Steady) (hh : h.Known R) (hsampled : h.run.Sampled S)
    (hS : s.Continues h → ∀ v, s.found h = some v → (s.target h, v) ∈ S)
    (hend : s.Ends h r o) :
    r.Sampled S ∧ ∃ v, knownResiduals? r r.search.iterate.x = some v := by
  have hpassed {r : Run ℝ σ n p} (hcontinues : s.Continues h) (hr : s.Passed h r) :
      r.Sampled S ∧ ∃ v, knownResiduals? r r.search.iterate.x = some v := by
    have hplace := (s.passed_settled hP hloss hs hh hc hr).1.place
    exact ⟨s.passed_sampled hP hloss hc hs hh (s.judged_sampled (hS hcontinues) hsampled) hr,
      knownResiduals?_of_held (.inl hplace.symm)⟩
  cases hend with
  | limit _ =>
    unfold giveUp
    dsimp only
    rw [tried_eq]
    split
    · exact ⟨⟨hsampled.base, hsampled.best, hsampled.trials⟩,
        knownResiduals?_of_held (.inr (.inl rfl))⟩
    · exact ⟨⟨hsampled.base, hsampled.best, hsampled.trials⟩,
        knownResiduals?_of_held (.inl hh.place.symm)⟩
  | exhausted hcontinues hr _ => exact hpassed hcontinues (s.followed_accepted h hr)
  | finished hcontinues hr =>
    rcases s.followed_finished h hr with ⟨hr, -⟩ | ⟨hv, rfl, -⟩
    · exact hpassed hcontinues hr
    · refine ⟨s.judged_sampled (hS hcontinues) hsampled, knownResiduals?_of_held ?_⟩
      have hover := ((s.judged_judged hs).1.over hc (s.scored_backed hloss hs hh) hv).1
      rw [scored_eq] at hover
      rcases hover with ⟨-, hx⟩ | ⟨-, v, hv, -⟩
      · rw [judged_base, hh.place]
        exact .inl hx
      · exact .inr (.inr ⟨v, hv⟩)

theorem ran_sampled (hr₀ : r₀.Settled R) (hstart : r₀.search.verdict = .accept)
    (hsampled : r₀.Sampled (s.samples r₀ l)) (hran : s.Ran r₀ l r o) :
    ∃ v, knownResiduals? r r.search.iterate.x = some v ∧
      (r.search.iterate.x, v) ∈ s.samples r₀ l := by
  obtain ⟨hl, q, hq, hend⟩ := hran
  have hfound (q') (hq' : q' ∈ l) (hcontinues : s.Continues q') (v : Vector ℝ n)
      (hv : s.found q' = some v) : (s.target q', v) ∈ s.samples r₀ l :=
    .inr ⟨q', hq', hcontinues, rfl, hv⟩
  have hheads := s.passes_sampled hP hloss hc hr₀ hstart hsampled hl hfound
  have hq := List.mem_of_head? hq
  obtain ⟨hs, hh⟩ := s.passes_known hP hloss hc hr₀ hstart hl q hq
  obtain ⟨hend, v, hv⟩ := s.ends_sampled hP hloss hc hs hh (hheads q hq) (hfound q hq) hend
  exact ⟨v, hv, knownResiduals?_mem hend hv⟩

end

theorem toArray_of_mem_samples (hP : s.problem.Answers R) (hr₀ : r₀.Settled R) {x : Vector ℝ p}
    {v : Vector ℝ n} (h : (x, v) ∈ s.samples r₀ l) : v.toArray = R x := by
  rcases h with hstart | ⟨q, -, -, hx, hv⟩
  · obtain ⟨rfl, rfl⟩ := Prod.mk.inj hstart
    exact hr₀.base
  · have hvalue := s.found_toArray hP hv
    rw [hx] at hvalue
    exact hvalue

theorem ends_base (hh : h.Anchored s.problem) (hend : s.Ends h r o) :
    r.base.Answered s.problem := by
  have hpassed {r : Run ℝ σ n p} (hr : s.Passed h r) : r.base.Answered s.problem := by
    obtain ⟨-, v, j, a, state, hj, rfl⟩ := hr
    exact answered_of_countedLinearization (congrArg Prod.fst hj)
  cases hend with
  | limit _ =>
    have hbase : (giveUp (s.tried h)).base = h.run.base := by
      unfold giveUp
      dsimp only
      rw [tried_eq]
      split <;> rfl
    rw [hbase]
    exact hh.answered
  | exhausted _ hr _ => exact hpassed (s.followed_accepted h hr)
  | finished _ hr =>
    rcases s.followed_finished h hr with ⟨hr, -⟩ | ⟨-, rfl, -⟩
    · exact hpassed hr
    · rw [judged_base]
      exact hh.answered

theorem finalJacobian_eq {J : Vector ℝ p → AnyDense ℝ} (hJ : s.problem.Derives J)
    (hr : r.base.Answered s.problem) {x : Vector ℝ p} {j : Dense ℝ n p}
    (hj : (s.finalJacobian r x).2 = .ok j) : (J x).shaped? n p = some j := by
  unfold finalJacobian at hj
  split at hj
  · next hbase =>
    cases hj
    rw [eq_of_beq hbase]
    exact hr.jacobian hJ
  · have hmap : (s.problem.countedLinearization n x r.account).1.map Prod.snd = .ok j := hj
    cases hanswer : (s.problem.countedLinearization n x r.account).1 with
    | error e =>
      rw [hanswer] at hmap
      cases hmap
    | ok answer =>
      rw [hanswer] at hmap
      cases hmap
      exact (answered_of_countedLinearization (v := answer.1) (j := answer.2) hanswer).jacobian hJ

theorem finalCovariance_computed {J : Vector ℝ p → AnyDense ℝ} (hJ : s.problem.Derives J)
    (hr : r.base.Answered s.problem) {x : Vector ℝ p} {v : Vector ℝ n} {m : Dense ℝ p p}
    (hm : (s.finalCovariance o r x v).2 = .computed m) :
    ∃ j request account, (J x).shaped? n p = some j ∧ s.config.covariance = some request ∧
      (covariance s.problem (Linearized.solution ⟨x, v, j⟩) r.search.iterate.d request s.config
        account).1 = .computed m := by
  have hd : (s.finalJacobian r x).1.search = r.search := by
    obtain ⟨account, heq⟩ := s.finalJacobian_run (r := r) x
    rw [heq]
  unfold finalCovariance at hm
  split at hm
  · cases hm
  next request hrequest =>
  split at hm
  · cases hm
  cases hfinal : s.finalJacobian r x with
  | mk r' answer =>
    rw [hfinal] at hm hd
    cases answer with
    | error e => cases hm
    | ok j =>
      have hj := s.finalJacobian_eq hJ hr (congrArg Prod.snd hfinal)
      dsimp only at hm hd
      refine ⟨j, request, r'.account, hj, hrequest, ?_⟩
      rw [hd] at hm
      split at hm
      · next reason hreason =>
        rw [hreason] at hm
        cases hm
      · exact hm

end Setup

/-- All that is reported belongs to one point, where these are the residuals and the Jacobian. -/
structure Report.Coherent (P : Problem ℝ σ p) (c : Config ℝ) (R : Vector ℝ p → Array ℝ)
    (J : Vector ℝ p → AnyDense ℝ) (report : Report ℝ p) : Prop where
  residuals : report.residuals.toArray = R report.params
  objective : report.objective = LeastSquares.objective report.residuals
  chiSquared : report.chiSquared = 2 * report.objective
  covariance : ∀ m, report.covariance = .computed m → ∃ j request account,
    (J report.params).shaped? report.observations p = some j ∧ c.covariance = some request ∧
      (LeastSquares.covariance P (Linearized.solution ⟨report.params, report.residuals, j⟩)
        report.scale request c account).1 = .computed m

theorem Setup.finish_coherent (s : Setup ℝ σ p) {R : Vector ℝ p → Array ℝ}
    {J : Vector ℝ p → AnyDense ℝ} (hJ : s.problem.Derives J) {r : Run ℝ σ n p} {o : Outcome}
    (hr : r.base.Answered s.problem) {v : Vector ℝ n}
    (hv : knownResiduals? r r.search.iterate.x = some v)
    (hvalue : v.toArray = R r.search.iterate.x) :
    (s.finish r o).1.Coherent s.problem s.config R J ∧
      (s.finish r o).1.params = r.search.iterate.x := by
  have hfinal := s.finalPoint_eq hv
  unfold finish
  rw [hfinal]
  dsimp only
  refine ⟨⟨hvalue, rfl, rfl, fun m hm => ?_⟩, rfl⟩
  dsimp only
  obtain ⟨account, warnings, heq⟩ := s.finalCovariance_run (r := r) (o := o) r.search.iterate.x v
  rw [heq]
  exact s.finalCovariance_computed hJ hr hm

variable {P : Problem ℝ σ p} {R : Vector ℝ p → Array ℝ} {J : Vector ℝ p → AnyDense ℝ}
  {initial : Vector ℝ p} {lower upper : Option (Array (Scalar.Side ℝ))} {c : Config ℝ} {state : σ}
  {report : Report ℝ p}

/-- The report belongs to one evaluation of the run, and is made without another one. Each
iteration starts at the point whose residuals and Jacobian the run holds. -/
theorem fit_coherent (hP : P.Answers R) (hJ : P.Derives J) (he : c.epsilonStep ≤ 1)
    (h : (fit P initial lower upper c state).1 = .ok report) :
    report.Coherent P c R J ∧
    ∃ (n : Nat) (s : Setup ℝ σ p) (r₀ : Run ℝ σ n p) (l : List (Head ℝ σ n p))
      (r : Run ℝ σ n p) (o : Outcome) (v : Vector ℝ n),
        Begun P initial lower upper c state s r₀ ∧ s.Ran r₀ l r o ∧
        report = (s.finish r o).1 ∧ s.finalPoint r = (r, report.params, v) ∧
        (report.params, v) ∈ s.samples r₀ l ∧ v.toArray = report.residuals.toArray ∧
        ∀ q ∈ l, q.run.base.x = q.run.search.iterate.x₀ ∧
          q.run.base.residuals.toArray = R q.run.search.iterate.x₀ ∧
          (J q.run.search.iterate.x₀).shaped? n p = some q.run.base.jacobian ∧
          q.run.search.iterate.f₀ = objective q.run.base.residuals := by
  obtain ⟨n, s, r₀, l, r, o, hbegun, hran, rfl⟩ := fit_ran h
  have hloss : stretchLoss s.config ≤ 1 :=
    stretchLoss_le_one hbegun.valid (by rw [hbegun.config]; exact he)
  have hc : 0 ≤ s.config.tuner2 :=
    Config.nonneg_of_validate hbegun.valid (f := .tuner2) (by decide)
  obtain ⟨-, hanswered, hplace⟩ := hbegun.start
  obtain ⟨hsettled, hstart, -⟩ := hbegun.settled hP
  rw [← hbegun.problem] at hP hJ
  have hknown := s.passes_known hP hloss hc hsettled hstart hran.1
  have hanchored := s.passes_anchored hanswered hplace hstart hran.1
  have hsampled : r₀.Sampled (s.samples r₀ l) := by
    obtain ⟨_, _, _, -, -, rfl⟩ := hbegun.first
    exact ⟨.inl rfl, .inl rfl, fun t ht => absurd ht List.not_mem_nil⟩
  obtain ⟨v, hv, hmem⟩ := s.ran_sampled hP hloss hc hsettled hstart hsampled hran
  have hvalue := s.toArray_of_mem_samples hP hsettled hmem
  obtain ⟨q, hq, hend⟩ := hran.2
  have hbase := s.ends_base (hanchored q (List.mem_of_head? hq)) hend
  obtain ⟨hcoherent, hparams⟩ := s.finish_coherent hJ (o := o) hbase hv hvalue
  rw [hbegun.problem, hbegun.config] at hcoherent
  refine ⟨hcoherent, n, s, r₀, l, r, o, v, hbegun, hran, rfl, ?_, ?_, ?_, ?_⟩
  · rw [hparams]
    exact s.finalPoint_eq hv
  · rw [hparams]
    exact hmem
  · rw [hcoherent.residuals, hparams]
    exact hvalue
  · intro q' hq'
    have hq'k := (hknown q' hq').2
    have hq'a := hanchored q' hq'
    refine ⟨hq'a.place, ?_, ?_, hq'k.start.symm⟩
    · rw [← hq'a.place]
      exact hq'k.run.base
    · rw [← hq'a.place]
      exact hq'a.answered.jacobian hJ

theorem Single.derives (r j : ℝ → ℝ) :
    (Problem.single r j).Derives fun x => ⟨1, 1, .single (j x[(0 : Fin 1)])⟩ := by
  rintro x mode state e ⟨⟩ a ha
  exact (Option.some.inj ha).symm

theorem fit_coherent_zigzag : ∃ report,
    (fit (.single (Zigzag.residual (-1)) Zigzag.slope) #v[0] none none Single.config ()).1 =
      .ok report ∧
    report.Coherent (.single (Zigzag.residual (-1)) Zigzag.slope) Single.config
      (fun x => #[Zigzag.residual (-1) x[(0 : Fin 1)]])
      (fun x => ⟨1, 1, .single (Zigzag.slope x[(0 : Fin 1)])⟩) ∧
    ∃ (n : Nat) (s : Setup ℝ Unit 1) (r₀ : Run ℝ Unit n 1) (l : List (Head ℝ Unit n 1))
      (r : Run ℝ Unit n 1) (o : Outcome) (v : Vector ℝ n),
        Begun (.single (Zigzag.residual (-1)) Zigzag.slope) #v[0] none none Single.config () s r₀ ∧
        s.Ran r₀ l r o ∧ report = (s.finish r o).1 ∧ s.finalPoint r = (r, report.params, v) ∧
        (report.params, v) ∈ s.samples r₀ l ∧ v.toArray = report.residuals.toArray ∧
        (∃ q ∈ l, q.run.search.iterate.x₀ ≠ r₀.base.x) ∧
        ∀ q ∈ l, q.run.base.x = q.run.search.iterate.x₀ ∧
          q.run.base.residuals.toArray = #[Zigzag.residual (-1) q.run.search.iterate.x₀[0]] ∧
          AnyDense.shaped? ⟨1, 1, .single (Zigzag.slope q.run.search.iterate.x₀[0])⟩ n 1 =
            some q.run.base.jacobian ∧
          q.run.search.iterate.f₀ = objective q.run.base.residuals := by
  have he : Single.config.epsilonStep ≤ 1 := by norm_num [Single.config, Config.default]
  have hreport := (Zigzag.begun (-1)).fit_eq
  obtain ⟨hcoherent, n, s, r₀, l, r, o, v, hbegun, hran, hfinish, hpoint, hmem, hv, hstarts⟩ :=
    fit_coherent (Single.answers _ _) (Single.derives _ _) he hreport
  obtain ⟨rfl, rfl, rfl⟩ := hbegun.unique (Zigzag.begun (-1))
  obtain ⟨_, _, _, _, -, hopening, -, -, -, -, hsearch⟩ := Zigzag.opened_second (-1)
  have hsecond := (hran.suffix (Zigzag.passes_second (-1))).subset
    List.mem_cons_self
  refine ⟨_, hreport, hcoherent, 1, _, _, l, r, o, v, hbegun, hran, hfinish, hpoint, hmem, hv,
    ⟨_, hsecond, ?_⟩, hstarts⟩
  rw [hopening, hsearch]
  exact fun h : #v[(4 : ℝ)] = #v[0] => by norm_num at h

end LeastSquares
