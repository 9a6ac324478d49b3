import LeastSquares.Proofs.Fit.Timely
import LeastSquares.Proofs.TrustStep.Halted

namespace LeastSquares

variable {α σ : Type} {n p : Nat} [Geometry α]

/-- What a trial begins with has been paid for. -/
structure Head.Within (c : Config α) (h : Head α σ n p) : Prop where
  gradients : h.run.account.gradientEvals ≤ h.run.account.functionEvals
  iterations : h.run.iterations ≤ h.run.account.functionEvals
  limit : h.run.iterations ≤ c.maxIterations

namespace Setup

variable (s : Setup α σ p) {h : Head α σ n p}

theorem followed_gradientEvals :
    (s.followed h).1.account.gradientEvals ≤ h.run.account.gradientEvals + 1 := by
  have hjudged : (s.judged h).account.gradientEvals = h.run.account.gradientEvals := by
    rw [judged_account]
    rfl
  have hcounted {x : Vector α p} {answer : Except Failure (Vector α n × Dense α n p)}
      {a : Account σ} (ha : s.problem.countedLinearization n x (s.judged h).account = (answer, a)) :
      a.gradientEvals = h.run.account.gradientEvals + 1 := by
    rw [← hjudged, ← congrArg (fun r => r.2.gradientEvals) ha]
    rfl
  have hstep := s.followed_step h
  generalize s.followed h = f at hstep
  obtain ⟨r, next⟩ := f
  dsimp only at hstep ⊢
  cases hstep with
  | other | again | ended => exact hjudged.le.trans (Nat.le_succ _)
  | lost _ ha => exact (hcounted ha).le
  | passed hr | stopped hr =>
    obtain ⟨-, _, _, _, _, ha, rfl⟩ := hr
    exact (hcounted ha).le

theorem followed_within (hh : h.Within s.config) {r : Run α σ n p} {next : Next}
    (hr : s.followed h = (r, next)) :
    r.account.gradientEvals ≤ r.account.functionEvals ∧
      r.iterations + 1 ≤ r.account.functionEvals ∧ r.iterations ≤ s.config.maxIterations := by
  have hfunctions := s.followed_functionEvals h
  have hgradients := s.followed_gradientEvals (h := h)
  rw [hr] at hfunctions hgradients
  dsimp only at hfunctions hgradients
  have hiterations := s.followed_iterations h hr
  obtain ⟨hg, hi, hmax⟩ := hh
  omega

theorem within_opening {r : Run α σ n p}
    (hgradients : r.account.gradientEvals ≤ r.account.functionEvals)
    (hiterations : r.iterations + 1 ≤ r.account.functionEvals)
    (hmax : r.iterations < s.config.maxIterations) : (s.opening r).Within s.config := by
  have haccount := s.opening_account r
  have hcount := s.opening_iterations r
  constructor
  · rw [haccount]
    exact hgradients
  · rw [haccount, hcount]
    exact hiterations
  · rw [hcount]
    exact hmax

theorem passes_within {r₀ : Run α σ n p} (hr₀ : (s.opening r₀).Within s.config)
    {l : List (Head α σ n p)} (hl : s.Passes r₀ l) : ∀ h ∈ l, h.Within s.config := by
  induction hl with
  | opened => exact List.forall_mem_singleton.mpr hr₀
  | again _ _ hr ih =>
    have hh := ih _ List.mem_cons_self
    obtain ⟨hgradients, hiterations, hmax⟩ := s.followed_within hh hr
    exact List.forall_mem_cons.mpr ⟨⟨hgradients, (Nat.le_succ _).trans hiterations, hmax⟩, ih⟩
  | next _ _ hr hleft ih =>
    have hh := ih _ List.mem_cons_self
    obtain ⟨hgradients, hiterations, -⟩ := s.followed_within hh hr
    exact List.forall_mem_cons.mpr ⟨s.within_opening hgradients hiterations hleft, ih⟩

theorem passes_length {r₀ : Run α σ n p} (hr₀ : r₀.account.functionEvals = 1)
    (hmax : s.config.maxFunctionEvals ≠ 0) {l : List (Head α σ n p)} (hl : s.Passes r₀ l) :
    l.length ≤ s.config.maxFunctionEvals := by
  have hlast {h : Head α σ n p} {l : List (Head α σ n p)} (hl : s.Passes r₀ (h :: l))
      (hcontinues : s.Continues h) : (h :: l).length < s.config.maxFunctionEvals := by
    have hcount := s.passes_functionEvals hl
    rw [hr₀] at hcount
    unfold Continues at hcontinues
    rw [List.length_cons]
    omega
  cases hl with
  | opened => exact Nat.one_le_iff_ne_zero.mpr hmax
  | again hl hcontinues _ => exact hlast hl hcontinues
  | next hl hcontinues _ _ => exact hlast hl hcontinues

theorem ends_within {r₀ r : Run α σ n p} {o : Outcome} {l : List (Head α σ n p)}
    (hr₀ : r₀.account.functionEvals = 1) (hmax : s.config.maxFunctionEvals ≠ 0)
    (hl : s.Passes r₀ (h :: l)) (hh : h.Within s.config) (hend : s.Ends h r o) :
    r.account.functionEvals ≤ s.config.maxFunctionEvals ∧
      r.iterations ≤ s.config.maxIterations ∧
      r.account.gradientEvals ≤ r.account.functionEvals ∧
      r.iterations ≤ r.account.functionEvals := by
  have hfollowed {r : Run α σ n p} {next : Next} (hcontinues : s.Continues h)
      (hr : s.followed h = (r, next)) :
      r.account.functionEvals ≤ s.config.maxFunctionEvals ∧
        r.iterations ≤ s.config.maxIterations ∧
        r.account.gradientEvals ≤ r.account.functionEvals ∧
        r.iterations ≤ r.account.functionEvals := by
    obtain ⟨hgradients, hiterations, hlimit⟩ := s.followed_within hh hr
    have hfunctions := s.followed_functionEvals h
    rw [hr] at hfunctions
    unfold Continues at hcontinues
    dsimp only at hfunctions
    omega
  cases hend with
  | limit =>
    have hcount := s.passes_functionEvals hl
    have hlength := s.passes_length hr₀ hmax hl
    rw [List.length_cons] at hlength
    rw [hr₀] at hcount
    obtain ⟨search, hgiven⟩ := giveUp_run (s.tried h)
    rw [hgiven, tried_eq]
    dsimp only
    exact ⟨by omega, hh.limit, hh.gradients, hh.iterations⟩
  | finished hcontinues hr => exact hfollowed hcontinues hr
  | exhausted hcontinues hr _ => exact hfollowed hcontinues hr

end Setup

/-- A run ends within its budgets. Each trial takes one evaluation, whatever is answered and
whatever numbers come up, and within a trial the solver and the assessments end too. -/
theorem run_within_budget {P : Problem α σ p} {initial : Vector α p}
    {lower upper : Option (Array (Scalar.Side α))} {c : Config α} {state : σ} {s : Setup α σ p}
    {r₀ : Run α σ n p} (h : Begun P initial lower upper c state s r₀)
    (hlimit : c.hebdenIterationLimit < 2 ^ 30) :
    ∃ (l : List (Head α σ n p)) (r : Run α σ n p) (o : Outcome),
      s.runFor c.maxIterations r₀ = (r, o) ∧ s.Ran r₀ l r o ∧
      r.account.functionEvals ≤ c.maxFunctionEvals ∧ r.iterations ≤ c.maxIterations ∧
      r.account.gradientEvals ≤ r.account.functionEvals ∧
      r.iterations ≤ r.account.functionEvals ∧
      l.length ≤ c.maxFunctionEvals ∧
      (∀ q l', q :: l' <:+ l → q.run.account.functionEvals = l'.length + 1 ∧
        (s.followed q).1.account.functionEvals = q.run.account.functionEvals + 1 ∧
        s.Protocol q) ∧
      ∀ (hessian : Symmetric α p) (g d : Vector α p) (radius : α),
        (StepTask.ofModel hessian g d radius c).Halts (16 * c.hebdenIterationLimit + 7) := by
  obtain ⟨hstart, htimely⟩ := h.timely
  obtain ⟨l, hl, q, hq, hend⟩ := h.ran
  obtain ⟨-, -, hlimits, -⟩ := Config.ranges_of_validate h.valid
  have hmax : s.config.maxFunctionEvals ≠ 0 := fun h0 => hlimits (.inl h0)
  have hiterations : s.config.maxIterations ≠ 0 := fun h0 => hlimits (.inr h0)
  obtain ⟨hevals, hwithin⟩ : r₀.account.functionEvals = 1 ∧ (s.opening r₀).Within s.config := by
    obtain ⟨e, point, state', -, -, rfl⟩ := h.first
    exact ⟨rfl, s.within_opening le_rfl le_rfl (Nat.pos_of_ne_zero hiterations)⟩
  obtain ⟨l', hl'⟩ : ∃ l', l = q :: l' := ⟨_, List.eq_cons_of_mem_head? hq⟩
  obtain ⟨hfunctions, hcount, hgradients, hle⟩ := s.ends_within hevals hmax (hl' ▸ hl)
    (s.passes_within hwithin hl q (List.mem_of_mem_head? hq)) hend
  have hlength := s.passes_length hevals hmax hl
  rw [h.config] at hfunctions hcount hlength
  refine ⟨l, _, _, rfl, ⟨hl, q, hq, hend⟩, hfunctions, hcount, hgradients, hle, hlength, ?_,
    StepTask.halts_ofModel hlimit⟩
  intro q l' hsuffix
  have hbefore := s.passes_functionEvals (s.passes_suffix hl hsuffix)
  rw [hevals, Nat.add_comm] at hbefore
  exact ⟨hbefore, s.followed_functionEvals q,
    s.protocol (s.passes_timely htimely hl q (hsuffix.subset List.mem_cons_self))⟩

/-! A run over doubles in which the other model is tried, its step taken back and tried again, and
the first model turned to once more, where the other one turns out to be that of the best step. -/

namespace Unsteady

def slope (x : Float) : Float := if 0 < x - x + 1 then -1 / 2 * x - 1 / 16 else 1 / 100

def stairs (x : Float) : Float :=
  if 0 < x - x + 1 then
    if 0 < x - 3 / 10 then 4146 / 10000
    else if 0 < x - 19 / 100 then 1
    else if 0 < x - 6 / 100 then 1 / 2
    else 1
  else 1 / 10

def jacobian (x : Float) : Dense Float 2 1 :=
  .ofFn fun i _ => if i.val = 0 then 4 * x + 1 / 2 else 0

/-- Two residuals in one parameter, with values of their own where it is not a number, and a
Jacobian that is not theirs. The sixth evaluation has no Jacobian, the eighth fails. -/
def problem : Problem Float Nat 1 where
  evaluate x mode k :=
    if k = 7 then (.error (.callback "call 8 failed"), k + 1)
    else
      (.ok ⟨#[slope x[0]!, stairs x[0]!],
        if mode = .jacobian ∧ k ≠ 5 then some ⟨2, 1, jacobian x[0]!⟩ else none⟩, k + 1)

def config : Config Float :=
  { (Config.default : Config Float) with
    covariance := none
    scaleMode := .fixed none
    decreaseFactor := Float.ofBits 1
    relFuncTol := 0
    singularTol := 0
    initialTrustRadius := 12 / 100
    maxFunctionEvals := 12 }

def setup : Setup Float Nat 1 := ⟨problem, none, config⟩

def start : Run Float Nat 2 1 := .start config ⟨#v[0], #v[slope 0, stairs 0], jacobian 0⟩ 1

theorem validate_config : config.validate 1 = .ok () := by
  have hvalid : (config.validate 1).toOption.isSome = true := by decide +kernel
  cases h : config.validate 1 with
  | ok => rfl
  | error =>
    rw [h] at hvalid
    cases hvalid

theorem begun : Begun problem #v[0] none none config 0 setup start := by
  refine ⟨rfl, rfl, ?_, ⟨#[slope 0, stairs 0], some ⟨2, 1, jacobian 0⟩⟩, _, 1, rfl, ?_, rfl⟩
  · refine checkInput_of_validate one_ne_zero validate_config fun i => ?_
    rw [Fin.fin_one_eq_zero i]
    decide +kernel
  · refine firstPoint_of_finite (e := ⟨#[slope 0, stairs 0], some ⟨2, 1, jacobian 0⟩⟩)
      (by decide) rfl ⟨?_, ?_⟩
    · decide +kernel
    · decide +kernel

def again (h : Head Float Nat 2 1) : Head Float Nat 2 1 :=
  ⟨h.gradient, h.normal, (setup.followed h).1⟩

def first : Head Float Nat 2 1 := setup.opening start

def second : Head Float Nat 2 1 := setup.opening (setup.followed first).1

/-- The step of the other model is a gain, but there is no Jacobian where it ends. -/
def third : Head Float Nat 2 1 := again second

/-- No step can be computed within the radius that is left, and the probe forgets it. -/
def fourth : Head Float Nat 2 1 := again third

def fifth : Head Float Nat 2 1 := again fourth

theorem followed_trials :
    (setup.followed first).2 = .accepted ∧ (setup.followed second).2 = .again ∧
      (setup.followed third).2 = .again ∧ (setup.followed fourth).2 = .again ∧
      (setup.followed fifth).2 = .finished .falseConverged ∧
      (setup.scored fifth).verdict = .otherOrShorter ∧
      (setup.scored fifth).iterate.model = (setup.scored fifth).record.bestModel := by
  decide +kernel

theorem followed_of_next {h : Head Float Nat 2 1} {next : Next}
    (hnext : (setup.followed h).2 = next) : setup.followed h = ((setup.followed h).1, next) := by
  rw [← hnext]

theorem passes_again {h : Head Float Nat 2 1} {l : List (Head Float Nat 2 1)}
    (hl : setup.Passes start (h :: l)) (hcontinues : setup.Continues h)
    (hagain : (setup.followed h).2 = .again) : setup.Passes start (again h :: h :: l) :=
  hl.again hcontinues (followed_of_next hagain)

theorem continues_of_passes {h : Head Float Nat 2 1} {l : List (Head Float Nat 2 1)}
    (hl : setup.Passes start (h :: l)) (hlength : l.length < 11) : setup.Continues h := by
  have hcount := setup.passes_functionEvals hl
  have hone : start.account.functionEvals = 1 := rfl
  have hmax : setup.config.maxFunctionEvals = 12 := rfl
  unfold Setup.Continues
  omega

theorem passes : setup.Passes start [fifth, fourth, third, second, first] := by
  obtain ⟨h1, h2, h3, h4, -⟩ := followed_trials
  have hl1 : setup.Passes start [first] := .opened
  have hc1 := continues_of_passes hl1 (by decide)
  have haccepted := followed_of_next h1
  have hiterations : (setup.followed first).1.iterations < setup.config.maxIterations := by
    rw [setup.followed_iterations first haccepted]
    exact (setup.opening_iterations start).trans_lt (by decide)
  have hl2 : setup.Passes start [second, first] := hl1.next hc1 haccepted hiterations
  have hl3 := passes_again hl2 (continues_of_passes hl2 (by decide)) h2
  have hl4 := passes_again hl3 (continues_of_passes hl3 (by decide)) h3
  exact passes_again hl4 (continues_of_passes hl4 (by decide)) h4

theorem ran : setup.Ran start [fifth, fourth, third, second, first] (setup.followed fifth).1
    .falseConverged := by
  have hlast := continues_of_passes passes (by decide)
  exact ⟨passes, fifth, rfl, .finished hlast (followed_of_next followed_trials.2.2.2.2.1)⟩

end Unsteady

theorem run_within_budget_unsteady :
    Begun Unsteady.problem #v[0] none none Unsteady.config 0 Unsteady.setup Unsteady.start ∧
    Unsteady.config.hebdenIterationLimit < 2 ^ 30 ∧
    ∃ (l : List (Head Float Nat 2 1)) (r : Run Float Nat 2 1) (o : Outcome),
      l.length = 5 ∧
      Unsteady.setup.runFor Unsteady.config.maxIterations Unsteady.start = (r, o) ∧
      Unsteady.setup.Ran Unsteady.start l r o ∧
      r.account.functionEvals ≤ Unsteady.config.maxFunctionEvals ∧
      r.iterations ≤ Unsteady.config.maxIterations ∧
      r.account.gradientEvals ≤ r.account.functionEvals ∧
      r.iterations ≤ r.account.functionEvals ∧
      l.length ≤ Unsteady.config.maxFunctionEvals ∧
      (∀ q l', q :: l' <:+ l → q.run.account.functionEvals = l'.length + 1 ∧
        (Unsteady.setup.followed q).1.account.functionEvals = q.run.account.functionEvals + 1 ∧
        Unsteady.setup.Protocol q) ∧
      ∀ (hessian : Symmetric Float 1) (g d : Vector Float 1) (radius : Float),
        (StepTask.ofModel hessian g d radius Unsteady.config).Halts
          (16 * Unsteady.config.hebdenIterationLimit + 7) := by
  have hlimit : Unsteady.config.hebdenIterationLimit < 2 ^ 30 := (by decide : 50 < 2 ^ 30)
  obtain ⟨l, r, o, hrun, hran, hrest⟩ := run_within_budget Unsteady.begun hlimit
  obtain ⟨rfl, -, -⟩ := hran.unique Unsteady.ran
  exact ⟨Unsteady.begun, hlimit, _, r, o, rfl, hrun, hran, hrest⟩

end LeastSquares
