import LeastSquares.Proofs.Fit.Corner

namespace LeastSquares

variable {σ : Type} {n p : Nat} {P : Problem ℝ σ p} {initial : Vector ℝ p}
  {lower upper : Option (Array (Scalar.Side ℝ))} {c : Config ℝ} {state : σ} {report : Report ℝ p}

theorem Begun.start {s : Setup ℝ σ p} {r₀ : Run ℝ σ n p}
    (h : Begun P initial lower upper c state s r₀) :
    (0 < r₀.search.iterate.radius ∧ (∀ i : Fin p, 0 < r₀.search.iterate.d[i]) ∧
      r₀.search.verdict = .accept) ∧
    r₀.base.Answered s.problem ∧ r₀.base.x = r₀.search.iterate.x := by
  have hpositive := h.positive
  obtain ⟨e, l, state', heval, hfirst, rfl⟩ := h.first
  obtain ⟨hx, hresiduals, ⟨j, hj, hshape⟩, -⟩ := firstPoint_spec hfirst
  refine ⟨hpositive, ⟨state, e, j, ?_, hresiduals.symm, hj, hshape⟩, rfl⟩
  rw [h.problem]
  change (P.evaluate l.x .jacobian state).1 = .ok e
  rw [hx, heval]

/-- Where the bounds leave nothing of a step, it is the step that they block. The gradient is
that of a stationary point in each component in which the shifted Hessian does not couple it to
others that the step moves. If this is a first trial, the fit ends there. -/
theorem fit_stalls (h : (fit P initial lower upper c state).1 = .ok report) :
    ∃ (n : Nat) (s : Setup ℝ σ p) (r₀ : Run ℝ σ n p) (l : List (Head ℝ σ n p))
      (r : Run ℝ σ n p) (o : Outcome), Begun P initial lower upper c state s r₀ ∧
        s.Ran r₀ l r o ∧ report = (s.finish r o).1 ∧
        ∀ q ∈ l, ∀ b, s.Stalls q b → q.Anchored P ∧
          (∀ i, b.Blocks q.run.search.iterate.x₀ (coords (s.unclamped q).1.step) i) ∧
          (c.hebdenIterationLimit < 2 ^ 30 → c.Scales → s.Pinned q b ∧
            (0 ≤ (s.unclamped q).1.parameter → ∀ i,
              (∀ j ≠ i, s.shifted q i j * (s.unclamped q).1.step[j] = 0) →
                b.Stationary q.run.search.iterate.x₀ q.gradient i)) ∧
          (s.Rests q → report.outcome = .xConverged ∧
            report.params = q.run.search.iterate.x₀) := by
  obtain ⟨n, s, r₀, l, r, o, hbegun, hran, hreport⟩ := fit_ran h
  have hc := hbegun.valid
  obtain ⟨⟨hradius, hd, hstart⟩, hanswered, hplace⟩ := hbegun.start
  refine ⟨n, s, r₀, l, r, o, hbegun, hran, hreport, fun q hq b hstalls => ?_⟩
  have hanchored := s.passes_anchored hanswered hplace hstart hran.1 q hq
  have hordered : b.Ordered := by
    have hmake := (checkInput_spec hbegun.input).2.2
    rw [hstalls.1] at hmake
    exact Bounds.make_ordered hmake
  refine ⟨?_, Bounds.blocks_of_project_eq hordered hstalls.2, fun hlimit hscale => ?_,
    fun hrests => ?_⟩
  · rw [← hbegun.problem]
    exact hanchored
  · rw [← hbegun.config] at hlimit hscale
    have hpaced := s.passes_paced hc hscale hlimit hradius hd hstart hran.1 q hq
    have hpinned := s.stalls_pinned hc hlimit hordered hpaced hstalls
    exact ⟨hpinned, fun hparameter i hdecoupled => hpinned.stationary hparameter hdecoupled⟩
  · rw [hreport]
    exact s.rests_reported hc hran hq (s.passes_steady hstart hran.1 q hq) hanchored hstalls hrests

theorem fit_stalls_corner : ∃ report,
    (fit Corner.problem #v[0, 0] Corner.lower Corner.upper Corner.config ()).1 = .ok report ∧
    ∃ (n : Nat) (s : Setup ℝ Unit 2) (r₀ : Run ℝ Unit n 2) (l : List (Head ℝ Unit n 2))
      (r : Run ℝ Unit n 2) (o : Outcome),
        Begun Corner.problem #v[0, 0] Corner.lower Corner.upper Corner.config () s r₀ ∧
        s.Ran r₀ l r o ∧ report = (s.finish r o).1 ∧
        ∀ q ∈ l, ∀ b, s.Stalls q b → q.Anchored Corner.problem ∧
          (∀ i, b.Blocks q.run.search.iterate.x₀ (coords (s.unclamped q).1.step) i) ∧
          (Corner.config.hebdenIterationLimit < 2 ^ 30 → Corner.config.Scales → s.Pinned q b ∧
            (0 ≤ (s.unclamped q).1.parameter → ∀ i,
              (∀ j ≠ i, s.shifted q i j * (s.unclamped q).1.step[j] = 0) →
                b.Stationary q.run.search.iterate.x₀ q.gradient i)) ∧
          (s.Rests q → report.outcome = .xConverged ∧
            report.params = q.run.search.iterate.x₀) :=
  ⟨_, Corner.begun.fit_eq, fit_stalls Corner.begun.fit_eq⟩

/-- A fit that ends with convergence on a bound, in a point that is not stationary: the second
parameter should go up, but its step goes down with that of the first. -/
theorem fit_corner_not_stationary : ∃ report,
    (fit Corner.problem #v[0, 0] Corner.lower Corner.upper Corner.config ()).1 = .ok report ∧
    report.outcome = .xConverged ∧ report.params = #v[0, 0] ∧
    ∃ (l : List (Head ℝ Unit 2 2)) (r : Run ℝ Unit 2 2) (o : Outcome),
      Begun Corner.problem #v[0, 0] Corner.lower Corner.upper Corner.config () Corner.setup
        (.start Corner.config Corner.start ()) ∧
      Corner.setup.Ran (.start Corner.config Corner.start ()) l r o ∧
      report = (Corner.setup.finish r o).1 ∧ Corner.first ∈ l ∧
      Corner.setup.Stalls Corner.first Corner.box ∧ Corner.first.Anchored Corner.problem ∧
      Corner.first.run.search.iterate.x₀ = #v[0, 0] ∧
      ¬Corner.box.Stationary #v[0, 0] Corner.first.gradient 1 := by
  obtain ⟨l, hran⟩ := Corner.begun.ran
  obtain ⟨⟨-, -, hstart⟩, hanswered, hplace⟩ := Corner.begun.start
  have hmem : Corner.first ∈ l := hran.1.opening_mem
  have hanchored := Corner.setup.passes_anchored hanswered hplace hstart hran.1 _ hmem
  obtain ⟨houtcome, hparams⟩ := Corner.setup.rests_reported Corner.validate_config hran hmem
    (Corner.setup.passes_steady hstart hran.1 _ hmem) hanchored Corner.first_stalls
    Corner.first_rests
  refine ⟨_, Corner.begun.fit_eq, houtcome, hparams.trans Corner.first_place, l, _, _,
    Corner.begun, hran, rfl, hmem, Corner.first_stalls, hanchored, Corner.first_place,
    fun hstationary => ?_⟩
  have hup : 0 < (-coords Corner.first.gradient) 1 := by
    rw [Corner.first_gradient, Corner.coords_pair]
    norm_num
  exact one_ne_zero (Option.some.inj (hstationary.up hup))

end LeastSquares
