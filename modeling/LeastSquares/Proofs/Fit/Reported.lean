import LeastSquares.Proofs.Fit.Best
import LeastSquares.Proofs.Fit.Single

namespace LeastSquares

variable {σ : Type} {n p : Nat}

/-- The residuals that a run holds are all from these evaluations. -/
structure Run.Sampled (S : Set (Vector ℝ p × Vector ℝ n)) (r : Run ℝ σ n p) : Prop where
  base : (r.base.x, r.base.residuals) ∈ S
  best : (r.best.x, r.best.residuals) ∈ S
  trials : ∀ t ∈ r.trials, t ∈ S

theorem knownResiduals?_mem {S : Set (Vector ℝ p × Vector ℝ n)} {r : Run ℝ σ n p}
    (hr : r.Sampled S) {x : Vector ℝ p} {v : Vector ℝ n}
    (hv : Setup.knownResiduals? r x = some v) : (x, v) ∈ S := by
  unfold Setup.knownResiduals? at hv
  split at hv
  · next hbase =>
    rw [eq_of_beq hbase, ← Option.some.inj hv]
    exact hr.base
  split at hv
  · next hbest =>
    rw [eq_of_beq hbest, ← Option.some.inj hv]
    exact hr.best
  · obtain ⟨t, ht, rfl⟩ := Option.map_eq_some_iff.mp hv
    have hfound : (t.1 == x) = true := by
      simpa only using List.find?_some ht
    rw [← eq_of_beq hfound]
    exact hr.trials t (List.mem_of_find?_eq_some ht)

theorem knownResiduals?_of_held {r : Run ℝ σ n p} {x : Vector ℝ p}
    (hx : x = r.base.x ∨ x = r.best.x ∨ ∃ v, (x, v) ∈ r.trials) :
    ∃ v, Setup.knownResiduals? r x = some v := by
  unfold Setup.knownResiduals?
  split
  · exact ⟨_, rfl⟩
  split
  · exact ⟨_, rfl⟩
  · next hbase hbest =>
    rcases hx with rfl | rfl | ⟨v, hv⟩
    · exact absurd BEq.rfl hbase
    · exact absurd BEq.rfl hbest
    · cases hfind : r.trials.find? fun t => t.1 == x with
      | none => exact absurd BEq.rfl (List.find?_eq_none.mp hfind _ hv)
      | some t => exact ⟨t.2, rfl⟩

theorem knownResiduals?_spec {R : Vector ℝ p → Array ℝ} {r : Run ℝ σ n p} (hr : r.Known R)
    {x : Vector ℝ p} {v : Vector ℝ n} (hv : v.toArray = R x)
    (hx : x = r.base.x ∨ x = r.best.x ∨ (x, v) ∈ r.trials) :
    Setup.knownResiduals? r x = some v := by
  have hsampled : r.Sampled {t | t.2.toArray = R t.1} :=
    ⟨hr.base, hr.best, fun t ht => (hr.trials t ht).1⟩
  obtain ⟨u, hu⟩ := knownResiduals?_of_held (hx.imp_right (Or.imp_right fun h => ⟨v, h⟩))
  have hvalue : u.toArray = R x := knownResiduals?_mem hsampled hu
  rw [hu, Vector.toArray_inj.mp (hvalue.trans hv.symm)]

namespace Setup

variable (s : Setup ℝ σ p) {h : Head ℝ σ n p} {R : Vector ℝ p → Array ℝ} {r₀ r : Run ℝ σ n p}
  {l : List (Head ℝ σ n p)} {o : Outcome}

theorem finalPoint_eq {v : Vector ℝ n} (hv : knownResiduals? r r.search.iterate.x = some v) :
    s.finalPoint r = (r, r.search.iterate.x, v) := by
  unfold finalPoint
  dsimp only
  rw [hv]

theorem finalJacobian_run (x : Vector ℝ p) :
    ∃ account, (s.finalJacobian r x).1 = { r with account } := by
  unfold finalJacobian
  split <;> exact ⟨_, rfl⟩

theorem finalCovariance_run (x : Vector ℝ p) (v : Vector ℝ n) :
    ∃ account warnings, (s.finalCovariance o r x v).1 = { r with account, warnings } := by
  obtain ⟨account, hfinal⟩ := s.finalJacobian_run (r := r) x
  unfold finalCovariance
  split
  · exact ⟨_, _, rfl⟩
  split
  · exact ⟨_, _, rfl⟩
  generalize s.finalJacobian r x = final at hfinal ⊢
  obtain ⟨r', answer⟩ := final
  obtain rfl : r' = { r with account } := hfinal
  cases answer with
  | error e => exact ⟨_, _, rfl⟩
  | ok j =>
    dsimp only
    split <;> exact ⟨_, _, rfl⟩

theorem finish_known {v : Vector ℝ n} (hv : knownResiduals? r r.search.iterate.x = some v) :
    (s.finish r o).1.params = r.search.iterate.x ∧ (s.finish r o).1.outcome = o ∧
      (s.finish r o).1.iterations = r.iterations := by
  obtain ⟨account, warnings, heq⟩ := s.finalCovariance_run (r := r) (o := o) r.search.iterate.x v
  unfold finish
  rw [s.finalPoint_eq hv]
  dsimp only
  rw [heq]
  exact ⟨rfl, rfl, rfl⟩

theorem finish_objective (hr : r.Known R) {v : Vector ℝ n} (hv : v.toArray = R r.search.iterate.x)
    (hx : r.search.iterate.x = r.base.x ∨ r.search.iterate.x = r.best.x ∨
      (r.search.iterate.x, v) ∈ r.trials) :
    (s.finish r o).1.objective = objective v := by
  unfold finish
  rw [s.finalPoint_eq (knownResiduals?_spec hr hv hx)]

theorem giveUp_objective (hh : h.Known R) :
    (s.finish (giveUp (s.tried h)) o).1.objective = h.run.best.f := by
  have hbest := hh.run.value
  have hrun : (s.tried h).Known R := by
    rw [tried_eq]
    exact ⟨hh.run.base, hh.run.best, hh.run.value, hh.run.trials⟩
  unfold giveUp
  dsimp only
  -- The best point of the run is lower than the start of the iteration, or the run goes back to
  -- that.
  split
  · have hplace : ((s.tried h).moveTo (s.tried h).best.x
        (s.tried h).best.f).Known R := ⟨hrun.base, hrun.best, hrun.value, hrun.trials⟩
    rw [s.finish_objective hplace hplace.best (.inr (.inl rfl))]
    have hsame : (s.tried h).best = h.run.best := by rw [tried_eq]
    change objective (s.tried h).best.residuals = _
    rw [hsame, hbest]
  · next hnot =>
    have hplace : ((s.tried h).moveTo (s.tried h).search.iterate.x₀
        (s.tried h).search.iterate.f₀).Known R :=
      ⟨hrun.base, hrun.best, hrun.value, hrun.trials⟩
    have hx₀ : (s.tried h).search.iterate.x₀ = h.run.base.x := by
      rw [hh.place, tried_eq]
    have hbase : h.run.base.residuals.toArray = R (s.tried h).search.iterate.x₀ := by
      rw [hx₀]
      exact hh.run.base
    have hsame : (s.tried h).base.x = h.run.base.x := by rw [tried_eq]
    rw [s.finish_objective hplace hbase (.inl (hx₀.trans hsame.symm)), hh.start]
    rw [tried_eq] at hnot
    exact le_antisymm (not_lt.mp hnot) hh.least

section

variable (hP : s.problem.Answers R) (hloss : stretchLoss s.config ≤ 1)
  (hc : 0 ≤ s.config.tuner2) (hs : h.Steady) (hh : h.Known R)
include hP hloss hc hs hh

theorem passed_objective (hr : s.Passed h r) :
    (s.finish r o).1.objective = r.search.iterate.f ∧
      r.search.iterate.f ≤ h.run.search.iterate.f₀ := by
  obtain ⟨hsettled, hgain⟩ := s.passed_settled hP hloss hs hh hc hr
  refine ⟨?_, hgain.le⟩
  have hbase : r.base.residuals.toArray = R r.search.iterate.x := by
    rw [← hsettled.place]
    exact hsettled.base
  rw [s.finish_objective hsettled.toKnown hbase (.inl hsettled.place.symm), hsettled.start]

theorem over_objective
    (hv : (s.judged h).search.verdict.code = 6 ∨ 6 < (s.judged h).search.verdict.code) :
    (s.finish (s.judged h) o).1.objective = (s.judged h).search.iterate.f ∧
      (s.judged h).search.iterate.f ≤ h.run.search.iterate.f₀ := by
  have hknown := s.judged_known hP hh.run
  have hover := ((s.judged_judged hs).1.over hc (s.scored_backed hloss hs hh) hv).1
  rw [scored_eq] at hover
  rcases hover with ⟨hf, hx⟩ | ⟨hgain, v, hv, hvalue⟩
  · have hplace : (s.judged h).search.iterate.x = (s.judged h).base.x := by
      rw [judged_base, hh.place]
      exact hx
    have hbase : (s.judged h).base.residuals.toArray = R (s.judged h).search.iterate.x := by
      rw [hplace]
      exact hknown.base
    refine ⟨?_, hf.le⟩
    rw [s.finish_objective hknown hbase (.inl hplace), judged_base, hh.start]
    exact hf.symm
  · refine ⟨?_, hgain.le⟩
    rw [s.finish_objective hknown (hknown.trials _ hv).1 (.inr (.inr hv)), hvalue]

theorem ends_objective (hend : s.Ends h r o) :
    (s.finish r o).1.objective ≤ h.run.search.iterate.f₀ ∧
      (s.Continues h ∧ (h.run.search.Lowest h.run.best.f →
          (s.finish r o).1.objective = (s.judged h).best.f) ∨
        ¬s.Continues h ∧ (s.finish r o).1.objective = h.run.best.f) := by
  have hpassed {r : Run ℝ σ n p} (hr : s.Passed h r) (o : Outcome) :
      (s.finish r o).1.objective ≤ h.run.search.iterate.f₀ ∧
        (h.run.search.Lowest h.run.best.f →
          (s.finish r o).1.objective = (s.judged h).best.f) := by
    obtain ⟨heq, hle⟩ := s.passed_objective hP hloss hc hs hh (o := o) hr
    rw [heq]
    exact ⟨hle, fun hlow => (s.lowest_next hloss hc hs hh hlow hr).symm⟩
  cases hend with
  | limit hcontinues =>
    rw [s.giveUp_objective hh]
    exact ⟨hh.least, .inr ⟨hcontinues, rfl⟩⟩
  | exhausted hcontinues hr _ =>
    obtain ⟨hle, hlow⟩ := hpassed (s.followed_accepted h hr) .iterationLimit
    exact ⟨hle, .inl ⟨hcontinues, hlow⟩⟩
  | finished hcontinues hr =>
    rcases s.followed_finished h hr with ⟨hr, -⟩ | ⟨hv, rfl, -⟩
    · obtain ⟨hle, hlow⟩ := hpassed hr o
      exact ⟨hle, .inl ⟨hcontinues, hlow⟩⟩
    · obtain ⟨heq, hle⟩ := s.over_objective hP hloss hc hs hh (o := o) hv
      rw [heq]
      refine ⟨hle, .inl ⟨hcontinues, fun hlow => ?_⟩⟩
      rw [judged_best_f]
      exact (((s.judged_judged hs).1.over hc (s.scored_backed hloss hs hh) hv).2 _
        (s.scored_lowest hlow)).symm

end

theorem ends_functionEvalLimit (hend : s.Ends h r .functionEvalLimit) : ¬s.Continues h := by
  generalize ho : Outcome.functionEvalLimit = o at hend
  cases hend with
  | limit hcontinues => exact hcontinues
  | exhausted => cases ho
  | finished _ hr =>
    rcases s.followed_finished h hr with ⟨-, rfl⟩ | ⟨-, -, rfl⟩
    · cases ho
    · cases hv : (s.judged h).search.verdict <;> rw [hv] at ho <;> cases ho

theorem passes_continues (hl : s.Passes r₀ (h :: l)) : ∀ q ∈ l, s.Continues q := by
  induction hl using Passes.head_induction with
  | opened => exact fun q hq => absurd hq List.not_mem_nil
  | again _ hcontinues _ ih => exact List.forall_mem_cons.mpr ⟨hcontinues, ih⟩
  | next _ hcontinues _ _ ih => exact List.forall_mem_cons.mpr ⟨hcontinues, ih⟩

theorem start_le (hdescend : (h :: l).Pairwise Head.Descends) (hl : s.Passes r₀ (h :: l)) :
    h.run.search.iterate.f₀ ≤ r₀.search.iterate.f := by
  have hopening : (s.opening r₀).run.search.iterate.f₀ = r₀.search.iterate.f := by
    obtain ⟨_, _, _, _, _, _, -, heq⟩ := s.opening_run r₀
    rw [heq]
  rw [← hopening]
  rcases List.mem_cons.mp hl.opening_mem with hfirst | hmem
  · rw [hfirst]
  · rcases (List.pairwise_cons.mp hdescend).1 _ hmem with ⟨-, hf⟩ | ⟨-, hf⟩
    · exact hf.le
    · exact hf.le

theorem least_of_limit (hcontinues : ¬s.Continues h) {f : ℝ} (hleast : IsLeast (s.values r₀ l) f) :
    IsLeast (s.values r₀ (h :: l)) f := by
  refine ⟨hleast.1.imp_right ?_, fun f' hf' => hleast.2 (hf'.imp_right ?_)⟩
  · rintro ⟨q, hq, hf⟩
    exact ⟨q, List.mem_cons_of_mem _ hq, hf⟩
  · rintro ⟨q, hq, hcontinues', hf⟩
    rcases List.mem_cons.mp hq with rfl | hq
    · exact absurd hcontinues' hcontinues
    · exact ⟨q, hq, hcontinues', hf⟩

end Setup

variable {P : Problem ℝ σ p} {R : Vector ℝ p → Array ℝ} {initial : Vector ℝ p}
  {lower upper : Option (Array (Scalar.Side ℝ))} {c : Config ℝ} {state : σ} {report : Report ℝ p}

theorem Begun.settled {s : Setup ℝ σ p} {r₀ : Run ℝ σ n p} (hP : P.Answers R)
    (h : Begun P initial lower upper c state s r₀) :
    r₀.Settled R ∧ r₀.search.verdict = .accept ∧ r₀.best.f = objective r₀.base.residuals := by
  obtain ⟨e, l, state', heval, hfirst, rfl⟩ := h.first
  obtain ⟨hx, hresiduals, -, hfinite⟩ := firstPoint_spec hfirst
  have hanswer : l.residuals.toArray = R l.x := by
    rw [hresiduals, hx]
    exact hP _ _ _ _ (congrArg Prod.fst heval)
  refine ⟨⟨⟨hanswer, hanswer, rfl, fun t ht => absurd ht List.not_mem_nil⟩, rfl, rfl,
    le_refl _, ?_⟩, rfl, rfl⟩
  exact (le_abs_self _).trans (isFinite_iff.mp hfinite)

/-- Every accepted step is a gain, no report is worse than the start, and unless an accepted
point had no Jacobian the report is of the best point that was evaluated. -/
theorem fit_reports_best (hP : P.Answers R) (he : c.epsilonStep ≤ 1)
    (h : (fit P initial lower upper c state).1 = .ok report) :
    ∃ (n : Nat) (s : Setup ℝ σ p) (r₀ : Run ℝ σ n p) (l : List (Head ℝ σ n p))
      (r : Run ℝ σ n p) (o : Outcome), Begun P initial lower upper c state s r₀ ∧
        s.Ran r₀ l r o ∧ report = (s.finish r o).1 ∧
        (∀ q ∈ l, s.Continues q → s.Succeeds q →
          (s.judged q).search.iterate.f < q.run.search.iterate.f₀) ∧
        l.Pairwise Head.Descends ∧ report.objective ≤ objective r₀.base.residuals ∧
        (report.outcome = .functionEvalLimit ∨ (∀ q ∈ l, s.Continues q → ¬s.Loses q) →
          IsLeast (s.values r₀ l) report.objective) := by
  obtain ⟨n, s, r₀, l, r, o, hbegun, ⟨hl, q, hq, hend⟩, rfl⟩ := fit_ran h
  have hloss : stretchLoss s.config ≤ 1 :=
    stretchLoss_le_one hbegun.valid (by rw [hbegun.config]; exact he)
  have hc : 0 ≤ s.config.tuner2 :=
    Config.nonneg_of_validate hbegun.valid (f := .tuner2) (by decide)
  rw [← hbegun.problem] at hP
  obtain ⟨hsettled, hstart, hbest⟩ := hbegun.settled (by rwa [← hbegun.problem])
  have hknown := s.passes_known hP hloss hc hsettled hstart hl
  have hdescend := s.passes_descend hloss hc hP hsettled hstart hl
  obtain ⟨l, rfl⟩ : ∃ l', l = q :: l' := by
    cases l with
    | nil => cases hq
    | cons a l' => exact ⟨l', congrArg (· :: l') (Option.some.inj hq)⟩
  obtain ⟨hs, hh⟩ := hknown q List.mem_cons_self
  obtain ⟨hle, hvalue⟩ := s.ends_objective hP hloss hc hs hh hend
  have hleast := s.passes_least hbest hl
  refine ⟨n, s, r₀, _, r, o, hbegun, ⟨hl, q, rfl, hend⟩, rfl, ?_, hdescend, ?_, ?_⟩
  · intro q hq _ hv
    exact s.succeeds_lt hloss hc (hknown q hq).1 (hknown q hq).2 hv
  · rw [hsettled.start]
    exact hle.trans (s.start_le hdescend hl)
  · intro hlimit
    rcases hvalue with ⟨hcontinues, hlow⟩ | ⟨hcontinues, heq⟩
    · have hkeeps : ∀ q' ∈ l, ¬s.Loses q' := by
        rcases hlimit with hlimit | hkeeps
        · have ho : o = .functionEvalLimit := hlimit
          rw [ho] at hend
          exact absurd hcontinues (s.ends_functionEvalLimit hend)
        · exact fun q' hq' => hkeeps q' (List.mem_cons_of_mem _ hq')
            (s.passes_continues hl q' hq')
      rw [hlow (s.passes_lowest hloss hc hP hsettled hstart hbest hl hkeeps)]
      exact s.least_cons hcontinues hleast
    · rw [heq]
      exact s.least_of_limit hcontinues hleast

theorem fit_reports_best_zigzag : ∃ report,
    (fit (.single (Zigzag.residual (-1)) Zigzag.slope) #v[0] none none Single.config ()).1 =
      .ok report ∧
    ∃ (n : Nat) (s : Setup ℝ Unit 1) (r₀ : Run ℝ Unit n 1) (l : List (Head ℝ Unit n 1))
      (r : Run ℝ Unit n 1) (o : Outcome),
        Begun (.single (Zigzag.residual (-1)) Zigzag.slope) #v[0] none none Single.config () s r₀ ∧
        s.Ran r₀ l r o ∧ report = (s.finish r o).1 ∧
        (∃ q ∈ l, s.Continues q ∧ s.Succeeds q) ∧
        (∀ q ∈ l, s.Continues q → s.Succeeds q →
          (s.judged q).search.iterate.f < q.run.search.iterate.f₀) ∧
        l.Pairwise Head.Descends ∧ report.objective ≤ objective r₀.base.residuals ∧
        (report.outcome = .functionEvalLimit ∨ (∀ q ∈ l, s.Continues q → ¬s.Loses q) →
          IsLeast (s.values r₀ l) report.objective) := by
  have he : Single.config.epsilonStep ≤ 1 := by norm_num [Single.config, Config.default]
  have hreport := (Zigzag.begun (-1)).fit_eq
  obtain ⟨n, s, r₀, l, r, o, hbegun, hran, hfinish, hrest⟩ :=
    fit_reports_best (Single.answers _ _) he hreport
  obtain ⟨rfl, rfl, rfl⟩ := hbegun.unique (Zigzag.begun (-1))
  obtain ⟨record, hfirst⟩ := Zigzag.judged_first (-1)
  refine ⟨_, hreport, 1, _, _, l, r, o, hbegun, hran, hfinish,
    ⟨_, hran.1.opening_mem, ?_, .inl ?_⟩, hrest⟩
  · exact Single.continues (.opened : (Zigzag.setup (-1)).Passes _ [Zigzag.first (-1)])
      (by decide : 0 + 1 < 200)
  · exact congrArg Search.verdict hfirst

end LeastSquares
