import LeastSquares.Proofs.Assess.Frame
import LeastSquares.Proofs.Fit.Frame

namespace LeastSquares

variable {α σ : Type} {n p : Nat} [Geometry α]

namespace Setup

variable (s : Setup α σ p) (h : Head α σ n p)

theorem tried_hessian : (s.tried h).hessian h.normal = h.run.hessian h.normal := by
  have hsecant : (s.tried h).secant = h.run.secant := by rw [tried_eq]
  have hmodel : (s.tried h).search.iterate.model = h.run.search.iterate.model := by rw [tried_eq]
  rw [Run.hessian, Run.hessian, hmodel, Run.modelHessian_congr hsecant]

theorem evaluated_memory : (s.evaluated h).memory = (s.tried h).memory := by
  cases hv : s.found h with
  | none =>
    obtain ⟨w, heq⟩ := s.evaluated_of_not_found h hv
    rw [heq]
  | some v => rw [s.evaluated_of_found h hv]

theorem judged_run : ∃ account search memory trials best warnings,
    s.judged h = { h.run with
      account
      search
      memory
      memoryModel := h.run.search.iterate.model
      trials
      best
      warnings } := by
  obtain ⟨search, memory, hjudged, -⟩ := s.judged_eq h
  rw [hjudged]
  cases hv : s.found h with
  | none =>
    obtain ⟨w, heq⟩ := s.evaluated_of_not_found h hv
    rw [heq, tried_eq]
    exact ⟨_, _, _, _, _, _, rfl⟩
  | some v =>
    rw [s.evaluated_of_found h hv, tried_eq]
    exact ⟨_, _, _, _, _, _, rfl⟩

theorem judged_account : (s.judged h).account = (s.answer h).2 := by
  refine (s.account_judge _ _ _).trans ?_
  cases hv : s.found h with
  | none =>
    obtain ⟨w, heq⟩ := s.evaluated_of_not_found h hv
    rw [heq]
  | some v => rw [s.evaluated_of_found h hv]

theorem judged_iterate : ∃ x f model oversized, (s.judged h).search.iterate =
    { h.run.search.iterate with x, f, model, oversized } := by
  have hscored : ∃ x f oversized, (s.scored h).iterate =
      { h.run.search.iterate with x, f, oversized } := by
    rw [scored_eq]
    exact ⟨_, _, _, rfl⟩
  obtain ⟨x, f, oversized, hscored⟩ := hscored
  obtain ⟨x₁, f₁, model₁, hfirst⟩ := assess_iterate s.config (s.scored h)
  rw [hscored] at hfirst
  obtain ⟨search, memory, hjudged, hcase⟩ := s.judged_eq h
  rw [hjudged]
  rcases hcase with ⟨-, rfl, -⟩ | ⟨-, t, rfl, -⟩
  · exact ⟨_, _, _, _, hfirst⟩
  · obtain ⟨x₂, f₂, model₂, hsecond⟩ :=
      assess_iterate s.config { assess s.config (s.scored h) with trial := t }
    refine ⟨x₂, f₂, model₂, oversized, hsecond.trans ?_⟩
    dsimp only
    rw [hfirst]

theorem judged_scale : (s.judged h).search.iterate.d = h.run.search.iterate.d := by
  obtain ⟨_, _, _, _, heq⟩ := s.judged_iterate h
  rw [heq]

theorem judged_iterations : (s.judged h).iterations = h.run.iterations := by
  obtain ⟨_, _, _, _, _, _, heq⟩ := s.judged_run h
  rw [heq]

theorem judged_base : (s.judged h).base = h.run.base := by
  obtain ⟨_, _, _, _, _, _, heq⟩ := s.judged_run h
  rw [heq]

theorem judged_secant : (s.judged h).secant = h.run.secant := by
  obtain ⟨_, _, _, _, _, _, heq⟩ := s.judged_run h
  rw [heq]

theorem step_iterations {r : Run α σ n p} {next : Next} (hr : s.Step h r next) :
    r.iterations = h.run.iterations := by
  cases hr with
  | passed hr =>
    obtain ⟨-, _, _, _, _, -, rfl⟩ := hr
    exact s.judged_iterations h
  | stopped hr =>
    obtain ⟨-, _, _, _, _, -, rfl⟩ := hr
    exact s.judged_iterations h
  | _ => exact s.judged_iterations h

theorem giveUp_run (r : Run α σ n p) : ∃ search, giveUp r = { r with search } := by
  unfold giveUp
  dsimp only
  split <;> exact ⟨_, rfl⟩

omit [Geometry α] in
theorem rankWarning_run (r : Run α σ n p) (f : PivotedQr α n p) :
    ∃ warnings, r.rankWarning f = { r with warnings } := by
  unfold Run.rankWarning
  split <;> exact ⟨_, rfl⟩

theorem learn_run (c : Config α) (g : Vector α p) (r : Run α σ n p) (a : Accepted α n p) :
    ∃ model radius secant, Run.learn c g r a = { r with
      secant
      search := { r.search with iterate := { r.search.iterate with model, radius } } } := by
  unfold Run.learn
  dsimp only
  split <;> split <;> exact ⟨_, _, _, rfl⟩

theorem opening_eq (r : Run α σ n p) : ∃ warnings,
    (s.opening r).run = Run.beginIteration s.config r.base.gradient { r with
      iterations := r.iterations + 1
      warnings } := by
  obtain ⟨warnings, hrank⟩ := rankWarning_run { r with iterations := r.iterations + 1 }
    (r.base.jacobian.pivotedQr 0)
  unfold opening
  dsimp only
  rw [hrank]
  exact ⟨warnings, rfl⟩

theorem opening_run (r : Run α σ n p) : ∃ model radius secant d stageLimit warnings,
    (stageLimit = 1 ∨ stageLimit = 2) ∧ (s.opening r).run = { r with
      iterations := r.iterations + 1
      search := { r.search with
        iterate := { r.search.iterate with
          x₀ := r.search.iterate.x
          f₀ := r.search.iterate.f
          oversized := false
          model
          radius
          d
          stageLimit }
        record := { r.search.record with bestModel := model } }
      memory := r.memory.reset
      memoryModel := model
      secant
      trials := []
      previous := none
      warnings } := by
  obtain ⟨warnings, heq⟩ := s.opening_eq r
  rw [heq]
  unfold Run.beginIteration
  dsimp only
  split
  · exact ⟨_, _, _, _, _, _, .inl rfl, rfl⟩
  · next a _ =>
    obtain ⟨model, radius, secant, hlearn⟩ := learn_run s.config r.base.gradient
      { r with iterations := r.iterations + 1, warnings } a
    rw [hlearn]
    exact ⟨_, _, _, _, _, _, .inr rfl, rfl⟩

theorem opening_first {r : Run α σ n p} (hr : r.previous = none) : ∃ warnings,
    (s.opening r).run = (Run.rescale s.config true { r with
      iterations := r.iterations + 1
      warnings }).openIteration := by
  obtain ⟨warnings, heq⟩ := s.opening_eq r
  rw [heq]
  unfold Run.beginIteration
  dsimp only
  rw [hr]
  exact ⟨warnings, rfl⟩

theorem opening_next {r : Run α σ n p} {a : Accepted α n p} (hr : r.previous = some a) :
    ∃ warnings, (s.opening r).run = (Run.rescale s.config false
      (Run.learn s.config r.base.gradient { r with
        iterations := r.iterations + 1
        warnings } a)).openIteration := by
  obtain ⟨warnings, heq⟩ := s.opening_eq r
  rw [heq]
  unfold Run.beginIteration
  dsimp only
  rw [hr]
  exact ⟨warnings, rfl⟩

theorem opening_iterations (r : Run α σ n p) :
    (s.opening r).run.iterations = r.iterations + 1 := by
  obtain ⟨_, _, _, _, _, _, -, heq⟩ := s.opening_run r
  rw [heq]

theorem opening_account (r : Run α σ n p) : (s.opening r).run.account = r.account := by
  obtain ⟨_, _, _, _, _, _, -, heq⟩ := s.opening_run r
  rw [heq]

theorem followed_iterations {r : Run α σ n p} {next : Next} (hr : s.followed h = (r, next)) :
    r.iterations = h.run.iterations := by
  have hstep := s.followed_step h
  rw [hr] at hstep
  exact s.step_iterations h hstep

theorem followed_functionEvals :
    (s.followed h).1.account.functionEvals = h.run.account.functionEvals + 1 := by
  rw [← tryStep_tried, functionEvals_tryStep, tried_account]

variable {h} in
theorem passes_functionEvals {r₀ : Run α σ n p} {l : List (Head α σ n p)}
    (hl : s.Passes r₀ (h :: l)) :
    h.run.account.functionEvals = r₀.account.functionEvals + l.length := by
  induction hl using Passes.head_induction with
  | opened => rw [opening_account, List.length_nil, Nat.add_zero]
  | @again h l r _ _ hr ih =>
    have hnext := s.followed_functionEvals h
    rw [hr, ih] at hnext
    exact hnext
  | @next h l r _ _ hr _ ih =>
    have hnext := s.followed_functionEvals h
    rw [hr, ih] at hnext
    rw [opening_account]
    exact hnext

variable {h} in
theorem continues_of_passes {r₀ : Run α σ n p} {l : List (Head α σ n p)}
    (hl : s.Passes r₀ (h :: l)) (hone : r₀.account.functionEvals = 1)
    (hleft : l.length + 1 < s.config.maxFunctionEvals) : s.Continues h := by
  have hcount := s.passes_functionEvals hl
  rw [hone, Nat.add_comm] at hcount
  unfold Continues
  rw [hcount]
  exact hleft

def proceed (h : Head α σ n p) : Head α σ n p ⊕ Run α σ n p × Outcome :=
  if h.run.account.functionEvals < s.config.maxFunctionEvals then
    match s.followed h with
    | (r, .again) => .inl ⟨h.gradient, h.normal, r⟩
    | (r, .accepted) =>
      if r.iterations < s.config.maxIterations then .inl (s.opening r)
      else .inr (r, .iterationLimit)
    | (r, .finished o) => .inr (r, o)
  else .inr (giveUp (s.tried h), .functionEvalLimit)

section

variable {s} {q h : Head α σ n p} {r₀ r r' : Run α σ n p} {l l' : List (Head α σ n p)}
  {o o' : Outcome}

theorem Passes.proceed (hl : s.Passes r₀ (q :: h :: l)) : s.proceed h = .inl q := by
  cases hl with
  | again _ hcontinues hr =>
    refine (if_pos hcontinues).trans ?_
    rw [hr]
  | next _ hcontinues hr hleft =>
    refine (if_pos hcontinues).trans ?_
    rw [hr]
    exact if_pos hleft

theorem Ends.proceed (hend : s.Ends h r o) : s.proceed h = .inr (r, o) := by
  cases hend with
  | limit hnot => exact if_neg hnot
  | finished hcontinues hr =>
    refine (if_pos hcontinues).trans ?_
    rw [hr]
  | exhausted hcontinues hr hover =>
    refine (if_pos hcontinues).trans ?_
    rw [hr]
    exact if_neg (Nat.not_lt.mpr hover)

theorem Passes.opening_suffix (hl : s.Passes r₀ l) : [s.opening r₀] <:+ l := by
  induction hl with
  | opened => exact List.suffix_rfl
  | again _ _ _ ih => exact ih.trans (List.suffix_cons _ _)
  | next _ _ _ _ ih => exact ih.trans (List.suffix_cons _ _)

theorem Passes.opening_mem (hl : s.Passes r₀ l) : s.opening r₀ ∈ l :=
  hl.opening_suffix.subset (List.mem_singleton_self _)

theorem Ran.suffix (hran : s.Ran r₀ l' r o) (hl : s.Passes r₀ l) : l <:+ l' := by
  obtain ⟨hl', last, hlast, hend⟩ := hran
  have hlater {h q : Head α σ n p} {l : List (Head α σ n p)} (hsuffix : h :: l <:+ l')
      (hq : s.Passes r₀ (q :: h :: l)) : q :: h :: l <:+ l' := by
    obtain ⟨t, rfl⟩ := hsuffix
    rcases List.eq_nil_or_concat t with rfl | ⟨t, q', rfl⟩
    · obtain rfl := Option.some.inj hlast
      cases hend.proceed.symm.trans hq.proceed
    · have hsuffix : q' :: h :: l <:+ t.concat q' ++ h :: l := ⟨t, by simp⟩
      have hstep := (s.passes_suffix hl' hsuffix).proceed
      obtain rfl := Sum.inl.inj (hstep.symm.trans hq.proceed)
      exact hsuffix
  induction hl with
  | opened => exact hl'.opening_suffix
  | again hl hcontinues hr ih => exact hlater ih (.again hl hcontinues hr)
  | next hl hcontinues hr hleft ih => exact hlater ih (.next hl hcontinues hr hleft)

theorem Ran.unique (hran : s.Ran r₀ l r o) (hran' : s.Ran r₀ l' r' o') :
    l = l' ∧ r = r' ∧ o = o' := by
  have hsame := (hran'.suffix hran.1).eq_of_length_le (hran.suffix hran'.1).length_le
  subst hsame
  obtain ⟨-, h, hh, hend⟩ := hran
  obtain ⟨-, h', hh', hend'⟩ := hran'
  obtain rfl := Option.some.inj (hh.symm.trans hh')
  exact ⟨rfl, Prod.mk.inj (Sum.inr.inj (hend.proceed.symm.trans hend'.proceed))⟩

end

theorem stepLoop_ends {r₀ : Run α σ n p} {l : List (Head α σ n p)}
    (hl : s.Passes r₀ (h :: l)) :
    ∃ h' l', s.Passes r₀ (h' :: l') ∧ h'.run.iterations = h.run.iterations ∧
      match s.stepLoop h.gradient h.normal h.run with
      | (r, some o) => s.Ends h' r o
      | (r, none) => s.Continues h' ∧ s.followed h' = (r, .accepted) := by
  obtain ⟨g, normal, r⟩ := h
  induction r using stepLoop.induct s g normal generalizing l with
  | case1 r hlimit =>
    refine ⟨_, l, hl, rfl, ?_⟩
    rw [stepLoop_eq, if_pos hlimit]
    exact .limit (Nat.not_lt.mpr hlimit)
  | case2 r hlimit r' hr ih =>
    change s.followed ⟨g, normal, r⟩ = (r', .again) at hr
    obtain ⟨h', l', hl', hiterations, hend⟩ := ih (hl.again (Nat.not_le.mp hlimit) hr)
    refine ⟨h', l', hl', hiterations.trans (s.followed_iterations _ hr), ?_⟩
    rw [stepLoop_eq, if_neg hlimit, hr]
    exact hend
  | case3 r hlimit r' hr =>
    change s.followed ⟨g, normal, r⟩ = (r', .accepted) at hr
    refine ⟨_, l, hl, rfl, ?_⟩
    rw [stepLoop_eq, if_neg hlimit, hr]
    exact ⟨Nat.not_le.mp hlimit, rfl⟩
  | case4 r hlimit r' o hr =>
    change s.followed ⟨g, normal, r⟩ = (r', .finished o) at hr
    refine ⟨_, l, hl, rfl, ?_⟩
    rw [stepLoop_eq, if_neg hlimit, hr]
    exact .finished (Nat.not_le.mp hlimit) hr

theorem runFor_ran {r₀ : Run α σ n p} {l : List (Head α σ n p)} {r : Run α σ n p} (k : Nat)
    (hl : s.Passes r₀ (s.opening r :: l)) (hk : r.iterations + (k + 1) = s.config.maxIterations) :
    ∃ l', s.Ran r₀ l' (s.runFor (k + 1) r).1 (s.runFor (k + 1) r).2 := by
  induction k generalizing r l with
  | zero =>
    obtain ⟨h, l', hl', hiterations, hend⟩ := s.stepLoop_ends _ hl
    rw [runFor, iterate_eq]
    generalize s.stepLoop _ _ _ = answer at hend ⊢
    obtain ⟨r', _ | o⟩ := answer
    · have hlast := s.followed_iterations _ hend.2
      rw [hiterations, opening_iterations] at hlast
      have hmax : s.config.maxIterations ≤ r'.iterations := by omega
      exact ⟨_, hl', h, rfl, .exhausted hend.1 hend.2 hmax⟩
    · exact ⟨_, hl', h, rfl, hend⟩
  | succ k ih =>
    obtain ⟨h, l', hl', hiterations, hend⟩ := s.stepLoop_ends _ hl
    rw [runFor, iterate_eq]
    generalize s.stepLoop _ _ _ = answer at hend ⊢
    obtain ⟨r', _ | o⟩ := answer
    · have hlast := s.followed_iterations _ hend.2
      rw [hiterations, opening_iterations] at hlast
      exact ih (hl'.next hend.1 hend.2 (by omega)) (by omega)
    · exact ⟨_, hl', h, rfl, hend⟩

section

variable {r r' : Run α σ n p} (k : Nat) (hr : s.Continues (s.opening r))
include hr

theorem runFor_of_finished {o : Outcome} (h : s.followed (s.opening r) = (r', .finished o)) :
    s.runFor (k + 1) r = (r', o) := by
  rw [runFor, iterate_eq, stepLoop_eq, if_neg (Nat.not_le.mpr hr), h]

theorem runFor_of_accepted (h : s.followed (s.opening r) = (r', .accepted)) :
    s.runFor (k + 1) r = s.runFor k r' := by
  rw [runFor, iterate_eq, stepLoop_eq, if_neg (Nat.not_le.mpr hr), h]

end

theorem runFor_start_ran {r₀ : Run α σ n p} (hr₀ : r₀.iterations = 0)
    (hmax : s.config.maxIterations ≠ 0) :
    ∃ l, s.Ran r₀ l (s.runFor s.config.maxIterations r₀).1
      (s.runFor s.config.maxIterations r₀).2 := by
  obtain ⟨k, hk⟩ := Nat.exists_eq_succ_of_ne_zero hmax
  rw [hk]
  exact s.runFor_ran k .opened (by rw [hr₀, hk, Nat.zero_add])

theorem finish_state (hcovariance : s.config.covariance = none) {r : Run α σ n p}
    (o : Outcome) : (s.finish r o).2 = (s.finalPoint r).1.account.state := by
  unfold finish finalCovariance
  dsimp only
  rw [hcovariance]

end Setup

end LeastSquares
