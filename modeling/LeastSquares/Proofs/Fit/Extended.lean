import LeastSquares.Proofs.Fit.Accounted
import LeastSquares.Proofs.Fit.Coherent
import LeastSquares.Proofs.Fit.Limited

namespace LeastSquares

section

variable {α σ : Type} {n p : Nat} [Geometry α]

namespace Config

variable {c : Config α} {evals iterations : Nat}

theorem validate_limited (h : c.validate p = .ok ()) (hevals : evals ≠ 0)
    (hiterations : iterations ≠ 0) : (c.limited evals iterations).validate p = .ok () := by
  obtain ⟨hfield, -, hscale, hlog⟩ := faults_of_validate h
  obtain ⟨hdecrease, hphi, -, hhebden⟩ := ranges_of_validate h
  have hrange : (c.limited evals iterations).rangeFault? = none := by
    simp [rangeFault?, limited, hdecrease, hphi, hevals, hiterations, hhebden]
  have hfault : (c.limited evals iterations).fault? p = none := by
    change (c.fieldFault?.map .config).or (((c.limited evals iterations).rangeFault?.map .config).or
      ((c.scaleFault? p).or (c.logFault?.map .config))) = none
    rw [hfield, hrange, hscale, hlog]
    rfl
  unfold validate
  rw [hfault]

end Config

omit [Geometry α] in
theorem Problem.counts_later (P : Problem α σ p) (calls : Calls α p) :
    P.recorded.Counts fun state _ _ => calls <+: state.2 where
  residuals _ _ _ _ h := h.trans (List.prefix_append _ _)
  jacobian _ _ _ _ h := h.trans (List.prefix_append _ _)
  stopRequested _ _ _ _ _ h := h

def Run.calls (r : Run α (σ × Calls α p) n p) : Calls α p := r.account.state.2

namespace Setup

variable {s : Setup α σ p} {h : Head α (σ × Calls α p) n p} {l : List (Head α (σ × Calls α p) n p)}
  {r₀ r : Run α (σ × Calls α p) n p} {o : Outcome}

theorem calls_followed : h.run.calls <+: (s.recorded.followed h).1.calls := by
  have hcounts : s.recorded.problem.Counts _ := s.problem.counts_later h.run.calls
  exact followed_meets hcounts (List.prefix_refl _)

theorem passes_calls (hl : s.recorded.Passes r₀ (h :: l)) :
    ∀ q ∈ l, (s.recorded.followed q).1.calls <+: h.run.calls := by
  induction hl using Passes.head_induction with
  | opened => exact fun q hq => absurd hq List.not_mem_nil
  | @again h l r _ _ hr ih =>
    have hlast := calls_followed (s := s) (h := h)
    refine List.forall_mem_cons.mpr ⟨?_, fun q hq => (ih q hq).trans ?_⟩
    · rw [hr]
    · rw [hr] at hlast
      exact hlast
  | @next h l r _ _ hr _ ih =>
    have hlast := calls_followed (s := s) (h := h)
    have hopening : (s.recorded.opening r).run.calls = r.calls := by
      unfold Run.calls
      rw [opening_account]
    rw [hopening]
    refine List.forall_mem_cons.mpr ⟨?_, fun q hq => (ih q hq).trans ?_⟩
    · rw [hr]
    · rw [hr] at hlast
      exact hlast

theorem ran_calls (hran : s.recorded.Ran r₀ l r o) : ∀ q ∈ l, q.run.calls <+: r.calls ∧
    (s.recorded.Continues q → (s.recorded.followed q).1.calls <+: r.calls) := by
  obtain ⟨hl, h, hh, hend⟩ := hran
  obtain ⟨t, rfl⟩ : ∃ t, l = h :: t := ⟨_, List.eq_cons_of_mem_head? hh⟩
  have hcounts : s.recorded.problem.Counts _ := s.problem.counts_later h.run.calls
  have hlast : h.run.calls <+: r.calls := ends_meets hcounts (List.prefix_refl _) hend
  refine List.forall_mem_cons.mpr ⟨⟨hlast, fun hcontinues => ?_⟩, fun q hq => ?_⟩
  · cases hend with
    | limit hnot => exact absurd hcontinues hnot
    | finished _ hr => rw [hr]
    | exhausted _ hr _ => rw [hr]
  · have hfollowed := (passes_calls hl q hq).trans hlast
    exact ⟨calls_followed.trans hfollowed, fun _ => hfollowed⟩

theorem calls_extended {l' : List (Head α (σ × Calls α p) n p)}
    {r' : Run α (σ × Calls α p) n p} {o' : Outcome} {evals iterations : Nat}
    (hevals : s.config.maxFunctionEvals ≤ evals) (hiterations : s.config.maxIterations ≤ iterations)
    (hran : s.recorded.Ran r₀ l r o)
    (hran' : (s.limited evals iterations).recorded.Ran r₀ l' r' o') : r.calls <+: r'.calls := by
  have hsuffix : l <:+ l' :=
    Ran.suffix hran' (Passes.limited (s := s.recorded) hevals hiterations hran.1)
  obtain ⟨-, h, hh, hend⟩ := hran
  obtain ⟨hbefore, hafter⟩ := ran_calls hran' h (hsuffix.subset (List.mem_of_mem_head? hh))
  have hfollowed : (s.limited evals iterations).recorded.followed h = s.recorded.followed h :=
    s.recorded.followed_limited evals iterations h
  rw [hfollowed] at hafter
  cases hend with
  | limit =>
    obtain ⟨search, hgiven⟩ := giveUp_run (s.recorded.tried h)
    rw [hgiven, tried_eq]
    exact hbefore
  | finished hcontinues hr =>
    have hlater := hafter (Nat.lt_of_lt_of_le hcontinues hevals)
    rw [hr] at hlater
    exact hlater
  | exhausted hcontinues hr _ =>
    have hlater := hafter (Nat.lt_of_lt_of_le hcontinues hevals)
    rw [hr] at hlater
    exact hlater

end Setup

theorem Setup.residualsAt_of_found (s : Setup α σ p) {h : Head α σ n p} {v : Vector α n}
    (hv : s.found h = some v) :
    (s.problem.residualsAt n (s.target h) h.run.account.state).1 = .ok v := by
  unfold found at hv
  split at hv
  · next u hu =>
    split at hv
    · cases hv
      exact hu
    · cases hv
  · cases hv

def Problem.Linearizes (P : Problem α σ p) : Prop :=
  ∀ n x state state' v, (P.residualsAt n x state).1 = .ok v →
    ∃ l, (P.linearizationAt n x state').1 = .ok l

end

variable {σ : Type} {n p : Nat}

namespace Setup

variable (s : Setup ℝ σ p) {q : Head ℝ σ n p} {R : Vector ℝ p → Array ℝ} {r₀ r : Run ℝ σ n p}
  {l : List (Head ℝ σ n p)} {o : Outcome}

section

variable (hP : s.problem.Answers R) (hloss : stretchLoss s.config ≤ 1) (hc : 0 ≤ s.config.tuner2)
  (hr₀ : r₀.Settled R) (hstart : r₀.search.verdict = .accept)
include hP hloss hc hr₀ hstart

theorem not_loses (hJ : s.problem.Linearizes) (hsampled : r₀.Sampled (s.samples r₀ l))
    (hl : s.Passes r₀ l) : ∀ q ∈ l, s.Continues q → ¬s.Loses q := by
  rintro q hq hcontinues ⟨hv, e, he⟩
  obtain ⟨hs, hh⟩ := s.passes_known hP hloss hc hr₀ hstart hl q hq
  have hfound (q) (hq : q ∈ l) (hcontinues : s.Continues q) (v : Vector ℝ n)
      (hv : s.found q = some v) : (s.target q, v) ∈ s.samples r₀ l :=
    .inr ⟨q, hq, hcontinues, rfl, hv⟩
  have hheads := s.passes_sampled hP hloss hc hr₀ hstart hsampled hl hfound
  have hjudged := s.judged_sampled (hfound q hq hcontinues) (hheads q hq)
  obtain ⟨hgain, ⟨u, hu, hvalue⟩, -⟩ :=
    (s.judged_judged hs).1.accepted hc (s.scored_backed hloss hs hh) hv
  rcases hjudged.trials _ hu with hbase | ⟨q', -, -, hx, hanswer⟩
  · -- The start is no gain on itself.
    obtain ⟨l', t, rfl⟩ := List.append_of_mem hq
    have hl' := s.passes_suffix hl (List.suffix_append l' (q :: t))
    have hle := s.start_le (s.passes_descend hloss hc hP hr₀ hstart hl') hl'
    have hlt := s.succeeds_lt hloss hc hs hh hv
    have hresiduals : u = r₀.base.residuals := (Prod.mk.inj hbase).2
    rw [← hvalue, hresiduals, hr₀.start] at hlt
    exact absurd hle (not_le.mpr hlt)
  · have hok := s.residualsAt_of_found hanswer
    rw [show s.target q' = (s.judged q).search.iterate.x from hx] at hok
    obtain ⟨point, hpoint⟩ := hJ n _ _ (s.judged q).account.state u hok
    cases hpoint.symm.trans he

theorem ran_least (hbest : r₀.best.f = objective r₀.base.residuals)
    (hkeeps : ∀ q ∈ l, s.Continues q → ¬s.Loses q) (hran : s.Ran r₀ l r o) :
    IsLeast (s.values r₀ l) (s.finish r o).1.objective := by
  obtain ⟨hl, q, hq, hend⟩ := hran
  obtain ⟨t, rfl⟩ : ∃ t, l = q :: t := ⟨_, List.eq_cons_of_mem_head? hq⟩
  obtain ⟨hs, hh⟩ := s.passes_known hP hloss hc hr₀ hstart hl q List.mem_cons_self
  have hleast := s.passes_least hbest hl
  rcases (s.ends_objective hP hloss hc hs hh hend).2 with ⟨hcontinues, hlow⟩ | ⟨hcontinues, heq⟩
  · have hkept : ∀ q' ∈ t, ¬s.Loses q' := fun q' hq' =>
      hkeeps q' (List.mem_cons_of_mem _ hq') (s.passes_continues hl q' hq')
    rw [hlow (s.passes_lowest hloss hc hP hr₀ hstart hbest hl hkept)]
    exact s.least_cons hcontinues hleast
  · rw [heq]
    exact s.least_of_limit hcontinues hleast

end

theorem values_limited {evals iterations : Nat} (hevals : s.config.maxFunctionEvals ≤ evals)
    {l' : List (Head ℝ σ n p)} (hsuffix : l <:+ l') :
    s.values r₀ l ⊆ (s.limited evals iterations).values r₀ l' := by
  rintro f (hf | ⟨q, hq, hcontinues, hf⟩)
  · exact .inl hf
  · refine .inr ⟨q, hsuffix.subset hq, Nat.lt_of_lt_of_le hcontinues hevals, ?_⟩
    exact hf

section

variable {s} {r₀ r r' : Run ℝ (σ × Calls ℝ p) n p} {l l' : List (Head ℝ (σ × Calls ℝ p) n p)}
  {o o' : Outcome} {evals iterations : Nat}
  (hP : s.recorded.problem.Answers R) (hJ : s.recorded.problem.Linearizes)
  (hloss : stretchLoss s.config ≤ 1) (hc : 0 ≤ s.config.tuner2)
  (hcovariance : s.config.covariance = none)
  (hr₀ : r₀.Settled R) (hstart : r₀.search.verdict = .accept)
  (hbest : r₀.best.f = objective r₀.base.residuals)
  (hsampled : ∀ S, (r₀.base.x, r₀.base.residuals) ∈ S → r₀.Sampled S)
include hP hJ hloss hc hcovariance hr₀ hstart hbest hsampled

theorem ran_reported (hran : s.recorded.Ran r₀ l r o) :
    IsLeast (s.recorded.values r₀ l) (s.recorded.finish r o).1.objective ∧
      (s.recorded.finish r o).2.2 = r.calls := by
  have hkeeps := s.recorded.not_loses hP hloss hc hr₀ hstart hJ (hsampled _ (.inl rfl)) hran.1
  obtain ⟨v, hv, -⟩ :=
    s.recorded.ran_sampled hP hloss hc hr₀ hstart (hsampled _ (.inl rfl)) hran
  have hstate := s.recorded.finish_state hcovariance (r := r) o
  rw [s.recorded.finalPoint_eq hv] at hstate
  exact ⟨s.recorded.ran_least hP hloss hc hr₀ hstart hbest hkeeps hran,
    congrArg Prod.snd hstate⟩

theorem finish_extended (hevals : s.config.maxFunctionEvals ≤ evals)
    (hiterations : s.config.maxIterations ≤ iterations) (hran : s.recorded.Ran r₀ l r o)
    (hran' : (s.limited evals iterations).recorded.Ran r₀ l' r' o') :
    (s.recorded.finish r o).2.2 <+: ((s.limited evals iterations).recorded.finish r' o').2.2 ∧
      ((s.limited evals iterations).recorded.finish r' o').1.objective ≤
        (s.recorded.finish r o).1.objective ∧
      (o ≠ .functionEvalLimit → o ≠ .iterationLimit →
        ((s.limited evals iterations).recorded.finish r' o').1 = (s.recorded.finish r o).1) := by
  obtain ⟨hleast, hcalls⟩ :=
    ran_reported hP hJ hloss hc hcovariance hr₀ hstart hbest hsampled hran
  obtain ⟨hleast', hcalls'⟩ := ran_reported (s := s.limited evals iterations) hP hJ hloss hc
    hcovariance hr₀ hstart hbest hsampled hran'
  have hpasses := Passes.limited (s := s.recorded) hevals hiterations hran.1
  refine ⟨?_, ?_, fun hlimit hexhausted => ?_⟩
  · rw [hcalls, hcalls']
    exact calls_extended hevals hiterations hran hran'
  · exact hleast'.2 (s.recorded.values_limited hevals (Ran.suffix hran' hpasses) hleast.1)
  · obtain ⟨-, h, hh, hend⟩ := hran
    have hend' : (s.recorded.limited evals iterations).Ends h r o :=
      hend.limited hevals hlimit hexhausted
    obtain ⟨-, rfl, rfl⟩ := Ran.unique ⟨hpasses, h, hh, hend'⟩ hran'
    exact congrArg Prod.fst (s.recorded.finish_limited evals iterations r o)

end

end Setup

variable {P : Problem ℝ σ p} {R : Vector ℝ p → Array ℝ} {initial : Vector ℝ p}
  {lower upper : Option (Array (Scalar.Side ℝ))} {c : Config ℝ} {state : σ} {evals iterations : Nat}

theorem Problem.Answers.recorded (hP : P.Answers R) : P.recorded.Answers R :=
  fun x mode state e he => hP x mode state.1 e he

theorem Problem.Linearizes.recorded (hJ : P.Linearizes) : P.recorded.Linearizes :=
  fun n x state state' v hv => hJ n x state.1 state'.1 v hv

theorem fit_error_limited {bounds : Option (Bounds ℝ p)} {e : FitError ℝ} {state' : σ}
    (hinput : checkInput initial lower upper c = .ok bounds)
    (hinput' : checkInput initial lower upper (c.limited evals iterations) = .ok bounds)
    (h : fit P initial lower upper c state = (.error e, state')) :
    fit P initial lower upper (c.limited evals iterations) state = (.error e, state') := by
  unfold fit at h ⊢
  rw [hinput] at h
  rw [hinput']
  dsimp only at h ⊢
  split at h
  · exact h
  · split at h
    · exact h
    · cases h

/-- What becomes of an answer under wider limits. A report gets no worse, and it only changes
where the limits cut the run short. -/
def Extends (answer answer' : Except (FitError ℝ) (Report ℝ p)) : Prop :=
  match answer with
  | .error e => answer' = .error e
  | .ok report => ∃ report', answer' = .ok report' ∧ report'.objective ≤ report.objective ∧
      (report.outcome ≠ .functionEvalLimit → report.outcome ≠ .iterationLimit → report' = report)

/-- A fit within some limits is the beginning of the fit within wider ones. -/
theorem fit_extended (hP : P.Answers R) (hJ : P.Linearizes) (he : c.epsilonStep ≤ 1)
    (hcovariance : c.covariance = none) (hc : c.validate p = .ok ())
    (hevals : c.maxFunctionEvals ≤ evals) (hiterations : c.maxIterations ≤ iterations) :
    fitCalls P initial lower upper c state <+:
        fitCalls P initial lower upper (c.limited evals iterations) state ∧
      Extends (fit P initial lower upper c state).1
        (fit P initial lower upper (c.limited evals iterations) state).1 := by
  have hlimits := (Config.ranges_of_validate hc).2.2.1
  have hc' : (c.limited evals iterations).validate p = .ok () :=
    Config.validate_limited hc (by omega) (by omega)
  have hsame : checkInput initial lower upper (c.limited evals iterations) =
      checkInput initial lower upper c := by
    unfold checkInput
    rw [hc, hc']
  have hplain := fit_recorded P initial lower upper c (state, [])
  have hplain' := fit_recorded P initial lower upper (c.limited evals iterations) (state, [])
  rw [hplain, hplain']
  unfold fitCalls
  cases hinput : checkInput initial lower upper c with
  | error e =>
    rw [hinput] at hsame
    unfold fit
    rw [hinput, hsame]
    exact ⟨List.prefix_refl _, rfl⟩
  | ok bounds =>
    rw [hinput] at hsame
    obtain ⟨e, herror⟩ | ⟨n, r₀, hbegun, -⟩ := fit_begun (P := P.recorded) hinput (state, [])
    · rw [fit_error_limited hinput hsame herror, herror]
      exact ⟨List.prefix_refl _, rfl⟩
    -- The first point of both fits is the same, and the shorter run is the beginning of the longer
    -- one.
    · have hbegun' : Begun P.recorded initial lower upper (c.limited evals iterations) (state, [])
          (Setup.limited ⟨P.recorded, bounds, c⟩ evals iterations) r₀ :=
        ⟨rfl, rfl, hsame, hbegun.first⟩
      obtain ⟨l, hran⟩ := hbegun.ran
      obtain ⟨l', hran'⟩ := hbegun'.ran
      obtain ⟨hr₀, hstart, hbest⟩ := hbegun.settled hP.recorded
      have hsampled (S) (hS : (r₀.base.x, r₀.base.residuals) ∈ S) : r₀.Sampled S := by
        obtain ⟨_, _, _, -, -, rfl⟩ := hbegun.first
        exact ⟨hS, hS, fun t ht => absurd ht List.not_mem_nil⟩
      obtain ⟨hcalls, hobjective, hreport⟩ := Setup.finish_extended (s := ⟨P, bounds, c⟩)
        hP.recorded hJ.recorded (stretchLoss_le_one hc he)
        (Config.nonneg_of_validate hc (f := .tuner2) (by decide)) hcovariance hr₀ hstart hbest
        hsampled hevals hiterations hran hran'
      rw [hbegun.fit_finish, hbegun'.fit_finish]
      exact ⟨hcalls, _, rfl, hobjective, hreport⟩

theorem Single.linearizes {r j : ℝ → ℝ} (hj : ∀ x, |j x| ≤ 10) :
    (Problem.single r j).Linearizes := by
  intro n x state state' v hv
  have hresiduals : checkedResiduals n #[r x[(0 : Fin 1)]] = .ok v := hv
  obtain rfl : 1 = n := by
    have hsize := toArray_of_checkedResiduals hresiduals
    exact (congrArg Array.size hsize).symm.trans v.size_toArray
  have hjacobian : checkedJacobian 1 1 (some ⟨1, 1, .single (j x[(0 : Fin 1)])⟩) =
      .ok (.single (j x[(0 : Fin 1)])) := if_pos (finite_jacobian (hj x[(0 : Fin 1)]))
  refine ⟨(v, .single (j x[(0 : Fin 1)])), ?_⟩
  change (checkedResiduals 1 #[r x[(0 : Fin 1)]] >>= fun r =>
    checkedJacobian 1 1 (some ⟨1, 1, .single (j x[(0 : Fin 1)])⟩) >>= fun j => .ok (r, j)) = _
  rw [hresiduals, hjacobian]
  rfl

theorem Begun.outcome_of_one {s : Setup ℝ σ p} {r₀ r : Run ℝ σ n p} {l : List (Head ℝ σ n p)}
    {o : Outcome} (h : Begun P initial lower upper c state s r₀) (hc : c.maxFunctionEvals = 1)
    (hran : s.Ran r₀ l r o) : o = .functionEvalLimit := by
  have hlimit : ¬s.Continues (s.opening r₀) := by
    obtain ⟨e, point, state', -, -, rfl⟩ := h.first
    unfold Setup.Continues
    rw [Setup.opening_account, h.config, hc]
    exact (by decide : ¬1 < 1)
  exact (hran.unique ⟨.opened, _, rfl, .limit hlimit⟩).2.2

theorem fit_extended_zigzag :
    (∃ report, (fit (.single (Zigzag.residual (-1)) Zigzag.slope) #v[0] none none
      (Single.config.limited 1 1) ()).1 = .ok report ∧ report.outcome = .functionEvalLimit) ∧
    fitCalls (.single (Zigzag.residual (-1)) Zigzag.slope) #v[0] none none
        (Single.config.limited 1 1) () <+:
      fitCalls (.single (Zigzag.residual (-1)) Zigzag.slope) #v[0] none none
        ((Single.config.limited 1 1).limited 200 150) () ∧
    Extends (fit (.single (Zigzag.residual (-1)) Zigzag.slope) #v[0] none none
        (Single.config.limited 1 1) ()).1
      (fit (.single (Zigzag.residual (-1)) Zigzag.slope) #v[0] none none
        ((Single.config.limited 1 1).limited 200 150) ()).1 := by
  have hc : (Single.config.limited 1 1).validate 1 = .ok () :=
    Config.validate_limited Single.validate_config one_ne_zero one_ne_zero
  have hj (x : ℝ) : |Zigzag.slope x| ≤ 10 := by
    unfold Zigzag.slope
    split <;> norm_num
  have hbegun := Single.begun (r := Zigzag.residual (-1)) (j := Zigzag.slope) (x := 0)
    (by norm_num [Zigzag.residual_zero]) (hj 0) hc (by norm_num)
  have hreport := hbegun.fit_eq
  obtain ⟨l, hran⟩ := hbegun.ran
  refine ⟨⟨_, hreport, hbegun.outcome_of_one rfl hran⟩, fit_extended (Single.answers _ _)
    (Single.linearizes hj) ?_ rfl hc ?_ ?_⟩
  · norm_num [Config.limited, Single.config, Config.default]
  · exact (by decide : 1 ≤ 200)
  · exact (by decide : 1 ≤ 150)

end LeastSquares
