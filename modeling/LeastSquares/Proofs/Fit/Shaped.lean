import LeastSquares.ForwardDifference
import LeastSquares.Proofs.Bounds
import LeastSquares.Proofs.Fit.Known
import LeastSquares.Proofs.Fit.Screened

namespace LeastSquares

variable {α σ : Type} {n p : Nat}

theorem AnyDense.eq_of_shaped? {a : AnyDense α} {j : Dense α n p} (h : a.shaped? n p = some j) :
    a = ⟨n, p, j⟩ := by
  obtain ⟨rows, cols, entries⟩ := a
  unfold shaped? at h
  dsimp only at h
  split at h
  · next hshape =>
    obtain ⟨rfl, rfl⟩ := hshape
    cases h
    rfl
  · cases h

theorem ForwardDifference.evaluate_shaped [Scalar α] {d : ForwardDifference α σ p}
    {x : Vector α p} {state : σ} {e : Evaluation α}
    (h : (d.problem.evaluate x .jacobian state).1 = .ok e) :
    ∃ j : Dense α e.residuals.size p, e.jacobian = some ⟨_, _, j⟩ := by
  unfold problem evaluate at h
  dsimp only at h
  generalize d.residual x state = answer at h
  obtain ⟨answer, state'⟩ := answer
  cases answer with
  | error f => cases h
  | ok r =>
    dsimp only at h
    generalize d.columns x r.toVector _ _ _ state' = answer at h
    obtain ⟨answer, state''⟩ := answer
    cases answer with
    | error f => cases h
    | ok j =>
      cases h
      exact ⟨j, rfl⟩

/-- The array of columns, and the array of each column. -/
structure Dense.Sized (a : Dense α n p) : Prop where
  columns : a.columns.toArray.size = p
  column : ∀ column ∈ a.columns, column.toArray.size = n

theorem Dense.sized (a : Dense α n p) : a.Sized :=
  ⟨Vector.size_toArray _, fun _ _ => Vector.size_toArray _⟩

/-- What a run keeps of its evaluations is as they were answered. -/
structure Run.Answered (P : Problem α σ p) (r : Run α σ n p) : Prop where
  base : r.base.Answered P
  trials : ∀ t ∈ r.trials, P.Gives t.1 t.2
  best : P.Gives r.best.x r.best.residuals

/-- The arrays behind a run, by whose sizes every operation on it is indexed. Those that came from
the problem are answers with these sizes. -/
structure Run.Sized (P : Problem α σ p) (r : Run α σ n p) : Prop extends r.Answered P where
  point : r.search.iterate.x.toArray.size = p ∧ r.search.iterate.x₀.toArray.size = p
  scale : r.search.iterate.d.toArray.size = p
  step : r.search.trial.step.toArray.size = p ∧ r.search.record.bestStep.toArray.size = p
  linearized : r.base.x.toArray.size = p ∧ r.base.residuals.toArray.size = n ∧
    r.base.jacobian.Sized
  secant : r.secant.lower.entries.toArray.size = p * (p + 1) / 2
  tried : ∀ t ∈ r.trials, t.1.toArray.size = p ∧ t.2.toArray.size = n
  kept : r.best.x.toArray.size = p ∧ r.best.residuals.toArray.size = n
  previous : ∀ a ∈ r.previous, a.x.toArray.size = p ∧ a.gradient.toArray.size = p ∧
    a.d.toArray.size = p ∧ a.jacobian.Sized
  newton : ∀ v ∈ r.memory.newton, v.toArray.size = p

theorem Run.Answered.sized {P : Problem α σ p} {r : Run α σ n p} (h : r.Answered P) :
    r.Sized P where
  toAnswered := h
  point := ⟨Vector.size_toArray _, Vector.size_toArray _⟩
  scale := Vector.size_toArray _
  step := ⟨Vector.size_toArray _, Vector.size_toArray _⟩
  linearized := ⟨Vector.size_toArray _, Vector.size_toArray _, Dense.sized _⟩
  secant := Vector.size_toArray _
  tried _ _ := ⟨Vector.size_toArray _, Vector.size_toArray _⟩
  kept := ⟨Vector.size_toArray _, Vector.size_toArray _⟩
  previous _ _ := ⟨Vector.size_toArray _, Vector.size_toArray _, Vector.size_toArray _,
    Dense.sized _⟩
  newton _ _ := Vector.size_toArray _

variable [Geometry α]

namespace Setup

variable (s : Setup α σ p) {h : Head α σ n p} {r₀ r : Run α σ n p} {l : List (Head α σ n p)}
  {o : Outcome}

theorem judged_run_answered (hh : h.run.Answered s.problem) : (s.judged h).Answered s.problem := by
  obtain ⟨search, memory, hjudged, -⟩ := s.judged_eq h
  rw [hjudged]
  cases hv : s.found h with
  | none =>
    obtain ⟨w, heq⟩ := s.evaluated_of_not_found h hv
    rw [heq, tried_eq]
    exact ⟨hh.base, hh.trials, hh.best⟩
  | some v =>
    rw [s.evaluated_of_found h hv, tried_eq]
    refine ⟨hh.base, List.forall_mem_cons.mpr ⟨s.gives_of_found hv, hh.trials⟩, ?_⟩
    dsimp only
    split
    · exact s.gives_of_found hv
    · exact hh.best

theorem opening_answered (hr : r.Answered s.problem) :
    (s.opening r).run.Answered s.problem := by
  obtain ⟨_, _, _, _, _, _, -, heq⟩ := s.opening_run r
  rw [heq]
  exact ⟨hr.base, nofun, hr.best⟩

theorem passed_answered (hh : h.run.Answered s.problem) (hr : s.Passed h r) :
    r.Answered s.problem := by
  have hjudged := s.judged_run_answered hh
  obtain ⟨-, v, j, a, state, hj, rfl⟩ := hr
  exact ⟨answered_of_countedLinearization (congrArg Prod.fst hj), hjudged.trials, hjudged.best⟩

theorem passes_answered (hr₀ : r₀.Answered s.problem) (hl : s.Passes r₀ l) :
    ∀ h ∈ l, h.run.Answered s.problem := by
  refine s.passes_invariant hl (s.opening_answered hr₀) ?again ?next
  case again =>
    intro h _ r _ _ hh _ hr
    have hjudged := s.judged_run_answered hh
    obtain ⟨_, _, _, _, _, _, _, rfl⟩ := s.again_eq h hr
    exact ⟨hjudged.base, hjudged.trials, hjudged.best⟩
  case next =>
    intro h _ r _ _ hh _ hr
    exact s.opening_answered (s.passed_answered hh (s.followed_accepted h hr))

theorem ends_answered (hh : h.run.Answered s.problem) (hend : s.Ends h r o) :
    r.Answered s.problem := by
  cases hend with
  | limit _ =>
    obtain ⟨search, heq⟩ := giveUp_run (s.tried h)
    rw [heq, tried_eq]
    exact ⟨hh.base, hh.trials, hh.best⟩
  | exhausted _ hr _ => exact s.passed_answered hh (s.followed_accepted h hr)
  | finished _ hr =>
    rcases s.followed_finished h hr with ⟨hr, -⟩ | ⟨-, rfl, -⟩
    · exact s.passed_answered hh hr
    · exact s.judged_run_answered hh

end Setup

/-- What was checked of the arguments and of the first answer when a run starts. -/
structure Setup.Shaped (s : Setup α σ p) (lower upper : Option (Array (Scalar.Side α))) (state : σ)
    (r₀ : Run α σ n p) : Prop where
  params : 1 ≤ p
  residuals : p ≤ n
  first : ∃ e j, (s.problem.evaluate r₀.base.x .jacobian state).1 = .ok e ∧
    e.residuals.size = n ∧ e.jacobian = some ⟨n, p, j⟩
  lower : ∀ a, lower = some a → a.size = p
  upper : ∀ a, upper = some a → a.size = p
  bounds : ∀ b, s.bounds = some b → ∀ i, b.Clamps i
  scale : ∀ d, s.config.scaleMode = .fixed (some d) → d.size = p

variable {P : Problem α σ p} {initial : Vector α p} {lower upper : Option (Array (Scalar.Side α))}
  {c : Config α} {state : σ} {s : Setup α σ p} {r₀ : Run α σ n p}

theorem size_of_fixed {d : Array α} (hc : c.validate p = .ok ())
    (hd : c.scaleMode = .fixed (some d)) : d.size = p := by
  have hfault := (Config.faults_of_validate hc).2.2.1
  unfold Config.scaleFault? at hfault
  rw [hd] at hfault
  dsimp only at hfault
  split at hfault
  · cases hfault
  · next hsize => exact Decidable.not_not.mp hsize

theorem Bounds.shaped_of_make {b : Option (Bounds α p)}
    (h : Bounds.make p lower upper = .ok b) :
    (∀ a, lower = some a → a.size = p) ∧ (∀ a, upper = some a → a.size = p) ∧
      ∀ b', b = some b' → ∀ i, b'.Clamps i := by
  rcases make_cases h with ⟨rfl, rfl, rfl⟩ | ⟨l, u, hl, hu, rfl, hnonempty⟩
  · exact ⟨nofun, nofun, nofun⟩
  · refine ⟨fun a ha => ?_, fun a ha => ?_, ?_⟩
    · obtain ⟨hsize, -⟩ := side_spec hl ha
      exact hsize
    · obtain ⟨hsize, -⟩ := side_spec hu ha
      exact hsize
    · rintro _ ⟨⟩ i
      exact clamps_of_not_empty (hnonempty i)

theorem le_of_firstPoint {x : Vector α p} {e : Evaluation α} {l : Linearized α n p}
    (h : firstPoint x e = .ok ⟨n, l⟩) : p ≤ e.residuals.size := by
  have hcases := firstPoint_cases x e
  rw [h] at hcases
  cases hcases with
  | taken hn _ _ _ => exact hn

theorem Begun.shaped (h : Begun P initial lower upper c state s r₀) :
    s.Shaped lower upper state r₀ := by
  obtain ⟨hp, hc, hmake⟩ := checkInput_spec h.input
  obtain ⟨hlower, hupper, hbounds⟩ := Bounds.shaped_of_make hmake
  obtain ⟨e, l, state', heval, hfirst, rfl⟩ := h.first
  obtain ⟨hx, hresiduals, ⟨j, hj, hshape⟩, -⟩ := firstPoint_spec hfirst
  have hsize : e.residuals.size = n := by
    rw [← hresiduals]
    exact l.residuals.size_toArray
  refine ⟨Nat.one_le_iff_ne_zero.mpr hp, ?_, ⟨e, l.jacobian, ?_, hsize, ?_⟩, hlower, hupper,
    hbounds, ?_⟩
  · rw [← hsize]
    exact le_of_firstPoint hfirst
  · change (s.problem.evaluate l.x .jacobian state).1 = .ok e
    rw [h.problem, hx, heval]
  · rw [hj, AnyDense.eq_of_shaped? hshape]
  · rw [h.config]
    exact fun d hd => size_of_fixed hc hd

theorem Begun.answered (h : Begun P initial lower upper c state s r₀) :
    r₀.Answered s.problem := by
  obtain ⟨e, l, state', heval, hfirst, rfl⟩ := h.first
  obtain ⟨hx, hresiduals, ⟨j, hj, hshape⟩, -⟩ := firstPoint_spec hfirst
  have hbase : l.Answered s.problem := by
    rw [h.problem]
    refine ⟨state, e, j, ?_, hresiduals.symm, hj, hshape⟩
    rw [hx, heval]
  exact ⟨hbase, nofun, hbase.gives⟩

/-- Whatever a problem answers, its fit is an error, or goes as it would with a problem all of
whose answers fit. Everything in a run carries its size in its type, and an index out of range
cannot be written, so what is to be shown is that nothing of another shape gets in. -/
theorem fit_shaped (P : Problem α σ p) (initial : Vector α p)
    (lower upper : Option (Array (Scalar.Side α))) (c : Config α) (state : σ) :
    ((∃ e, (fit P initial lower upper c state).1 = .error e) ∨
      ∃ (n : Nat) (s : Setup α σ p) (r₀ : Run α σ n p) (l : List (Head α σ n p))
        (r : Run α σ n p) (o : Outcome), Begun P initial lower upper c state s r₀ ∧
          s.Ran r₀ l r o ∧ (fit P initial lower upper c state).1 = .ok (s.finish r o).1 ∧
          s.Shaped lower upper state r₀ ∧
          (s.screened n).Ran r₀ l r o ∧ (s.screened n).finish r o = s.finish r o ∧
          (∀ h ∈ l, h.run.Sized P) ∧ r.Sized P) ∧
    (∀ n x mode t e, ((P.screened n).evaluate x mode t).1 = .ok e → e.Fits n p mode) ∧
    ∀ (d : ForwardDifference α σ p) x t e, (d.problem.evaluate x .jacobian t).1 = .ok e →
      ∃ j : Dense α e.residuals.size p, e.jacobian = some ⟨_, _, j⟩ := by
  refine ⟨?_, fun _ _ _ _ _ h => P.screened_fits h,
    fun _ _ _ _ h => ForwardDifference.evaluate_shaped h⟩
  cases hfit : (fit P initial lower upper c state).1 with
  | error e => exact .inl ⟨e, rfl⟩
  | ok report =>
    obtain ⟨n, s, r₀, l, r, o, hbegun, hran, hreport⟩ := fit_ran hfit
    have hr₀ : r₀.Answered s.problem := hbegun.answered
    have hheads := s.passes_answered hr₀ hran.1
    obtain ⟨q, hq, hend⟩ := hran.2
    have hlast := s.ends_answered (hheads q (List.mem_of_head? hq)) hend
    rw [hbegun.problem] at hheads hlast
    refine .inr ⟨n, s, r₀, l, r, o, hbegun, hran, ?_, hbegun.shaped, hran.screened,
      s.finish_screened r o, fun h hh => (hheads h hh).sized, hlast.sized⟩
    rw [hreport]

end LeastSquares
