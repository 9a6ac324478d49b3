import LeastSquares.Proofs.Fit.Ran
import LeastSquares.Proofs.Sums
import LeastSquares.Proofs.Validated

namespace LeastSquares

variable {α σ : Type} {n p : Nat} [Geometry α]

theorem checkInput_spec {initial : Vector α p} {lower upper : Option (Array (Scalar.Side α))}
    {c : Config α} {b : Option (Bounds α p)} (h : checkInput initial lower upper c = .ok b) :
    p ≠ 0 ∧ c.validate p = .ok () ∧ Bounds.make p lower upper = .ok b := by
  unfold checkInput at h
  by_cases hp : p = 0
  · rw [if_pos hp] at h
    cases h
  rw [if_neg hp] at h
  cases hv : c.validate p with
  | error e =>
    rw [hv] at h
    cases h
  | ok u =>
    rw [hv] at h
    dsimp only [bind, Except.bind, pure, Except.pure] at h
    split at h
    · cases h
    · exact ⟨hp, rfl, h⟩

theorem validate_of_checkInput {initial : Vector α p} {lower upper : Option (Array (Scalar.Side α))}
    {c : Config α} {b : Option (Bounds α p)} (h : checkInput initial lower upper c = .ok b) :
    c.validate p = .ok () :=
  (checkInput_spec h).2.1

theorem checkInput_of_validate {initial : Vector α p} {lower upper : Option (Array (Scalar.Side α))}
    {c : Config α} (hp : p ≠ 0) (hc : c.validate p = .ok ())
    (hfinite : ∀ i : Fin p, Scalar.isFinite initial[i] = true) :
    checkInput initial lower upper c = Bounds.make p lower upper := by
  have hfind : (List.finRange p).find? (fun i => !Scalar.isFinite initial[i]) = none := by
    rw [List.find?_eq_none]
    intro i _
    rw [hfinite i]
    decide
  unfold checkInput
  rw [if_neg hp, hc, hfind]
  rfl

/-- What the first evaluation comes to: the first of the checks that it fails, or the point. -/
inductive FirstPoint (x : Vector α p) (e : Evaluation α) :
    Except (FitError α) ((n : Nat) × Linearized α n p) → Prop
  | tooFew (hn : e.residuals.size < p) :
    FirstPoint x e (.error (.tooFewResiduals e.residuals.size p))
  | noJacobian (hj : e.jacobian = none) :
    FirstPoint x e (.error (.initialEvaluation .noJacobian))
  | rows {j : AnyDense α} (hj : e.jacobian = some j) (hrows : j.rows ≠ e.residuals.size) :
    FirstPoint x e (.error (.dimension .jacobianRows e.residuals.size j.rows))
  | columns {j : AnyDense α} (hj : e.jacobian = some j)
    (hshape : j.shaped? e.residuals.size p = none) :
    FirstPoint x e (.error (.dimension .jacobianColumns p j.cols))
  | notFinite {j : AnyDense α} {a : Dense α e.residuals.size p} (hj : e.jacobian = some j)
    (hshape : j.shaped? e.residuals.size p = some a)
    (hfinite : ¬(Scalar.isFinite (objective e.residuals.toVector) ∧ a.all Scalar.isFinite)) :
    FirstPoint x e (.error (.initialEvaluation .notFinite))
  | taken {j : AnyDense α} {a : Dense α e.residuals.size p} (hn : p ≤ e.residuals.size)
    (hj : e.jacobian = some j) (hshape : j.shaped? e.residuals.size p = some a)
    (hfinite : Scalar.isFinite (objective e.residuals.toVector) ∧ a.all Scalar.isFinite) :
    FirstPoint x e (.ok ⟨e.residuals.size, x, e.residuals.toVector, a⟩)

theorem firstPoint_cases (x : Vector α p) (e : Evaluation α) :
    FirstPoint x e (firstPoint x e) := by
  unfold firstPoint
  by_cases hn : e.residuals.size < p
  · rw [if_pos hn]
    exact .tooFew hn
  rw [if_neg hn]
  cases hj : e.jacobian with
  | none => exact .noJacobian hj
  | some j =>
    by_cases hrows : j.rows ≠ e.residuals.size
    · simp only [if_pos hrows]
      exact .rows hj hrows
    simp only [if_neg hrows]
    cases hshape : j.shaped? e.residuals.size p with
    | none => exact .columns hj hshape
    | some a =>
      dsimp only [bind, Except.bind, pure, Except.pure]
      split
      · next hfinite => exact .taken (Nat.not_lt.mp hn) hj hshape hfinite
      · next hfinite => exact .notFinite hj hshape hfinite

theorem firstPoint_spec {x : Vector α p} {e : Evaluation α} {l : Linearized α n p}
    (h : firstPoint x e = .ok ⟨n, l⟩) :
    l.x = x ∧ l.residuals.toArray = e.residuals ∧
      (∃ j, e.jacobian = some j ∧ j.shaped? n p = some l.jacobian) ∧
      Scalar.isFinite (objective l.residuals) := by
  have hcases := firstPoint_cases x e
  rw [h] at hcases
  cases hcases with
  | taken _ hj hshape hfinite => exact ⟨rfl, rfl, ⟨_, hj, hshape⟩, hfinite.1⟩

theorem firstPoint_of_finite {x : Vector α p} {e : Evaluation α}
    (hn : p ≤ e.residuals.size) {j : Dense α e.residuals.size p} (hj : e.jacobian = some ⟨_, _, j⟩)
    (hfinite : Scalar.isFinite (objective e.residuals.toVector) ∧ j.all Scalar.isFinite) :
    firstPoint x e = .ok ⟨e.residuals.size, x, e.residuals.toVector, j⟩ := by
  have hshape : (⟨_, _, j⟩ : AnyDense α).shaped? e.residuals.size p = some j := by
    rw [AnyDense.shaped?, dif_pos ⟨rfl, rfl⟩]
  unfold firstPoint
  simp only [if_neg (Nat.not_lt.mpr hn), hj, ne_eq, not_true_eq_false, if_false, hshape]
  exact if_pos hfinite

theorem firstPoint_toArray {x : Vector α p} {v : Vector α n} {a : Dense α n p} (hn : p ≤ n)
    (hv : Scalar.isFinite (objective v) = true) (ha : a.all Scalar.isFinite = true) :
    firstPoint x ⟨v.toArray, some ⟨n, p, a⟩⟩ = .ok ⟨n, x, v, a⟩ := by
  obtain ⟨v, rfl⟩ := v
  exact firstPoint_of_finite (e := ⟨v, some ⟨_, p, a⟩⟩) hn rfl ⟨hv, ha⟩

/-- A fit that has its first point: its setup, and the run before the first iteration. -/
structure Begun (P : Problem α σ p) (initial : Vector α p)
    (lower upper : Option (Array (Scalar.Side α))) (c : Config α) (state : σ)
    (s : Setup α σ p) (r₀ : Run α σ n p) : Prop where
  problem : s.problem = P
  config : s.config = c
  input : checkInput initial lower upper c = .ok s.bounds
  first : ∃ e l state',
    P.evaluate ((s.bounds.map (·.project initial)).getD initial) .jacobian state =
      (.ok e, state') ∧
    firstPoint ((s.bounds.map (·.project initial)).getD initial) e = .ok ⟨n, l⟩ ∧
    r₀ = .start c l state'

theorem Begun.valid {P : Problem α σ p} {initial : Vector α p}
    {lower upper : Option (Array (Scalar.Side α))} {c : Config α} {state : σ}
    {s : Setup α σ p} {r₀ : Run α σ n p}
    (h : Begun P initial lower upper c state s r₀) : s.config.validate p = .ok () := by
  rw [h.config]
  exact validate_of_checkInput h.input

theorem Begun.unique {m : Nat} {P : Problem α σ p} {initial : Vector α p}
    {lower upper : Option (Array (Scalar.Side α))} {c : Config α} {state : σ} {s s' : Setup α σ p}
    {r₀ : Run α σ n p} {r₀' : Run α σ m p} (h : Begun P initial lower upper c state s r₀)
    (h' : Begun P initial lower upper c state s' r₀') :
    ∃ hn : n = m, s = s' ∧ hn ▸ r₀ = r₀' := by
  have hbounds : s.bounds = s'.bounds := Except.ok.inj (h.input.symm.trans h'.input)
  have hs : s = s' := by
    obtain ⟨P, b, c⟩ := s
    obtain ⟨P', b', c'⟩ := s'
    obtain rfl : P = P' := h.problem.trans h'.problem.symm
    obtain rfl : c = c' := h.config.trans h'.config.symm
    obtain rfl : b = b' := hbounds
    rfl
  obtain ⟨e, l, state₁, heval, hfirst, rfl⟩ := h.first
  obtain ⟨e', l', state₂, heval', hfirst', rfl⟩ := h'.first
  rw [← hbounds, heval] at heval'
  cases heval'
  rw [← hbounds, hfirst] at hfirst'
  cases hfirst'
  exact ⟨rfl, hs, rfl⟩

theorem Begun.fit_finish {P : Problem α σ p} {initial : Vector α p}
    {lower upper : Option (Array (Scalar.Side α))} {c : Config α} {state : σ} {s : Setup α σ p}
    {r₀ : Run α σ n p} (h : Begun P initial lower upper c state s r₀) :
    fit P initial lower upper c state =
      (.ok (s.finish (s.runFor c.maxIterations r₀).1 (s.runFor c.maxIterations r₀).2).1,
        (s.finish (s.runFor c.maxIterations r₀).1 (s.runFor c.maxIterations r₀).2).2) := by
  obtain ⟨e, l, state', heval, hfirst, rfl⟩ := h.first
  have hs : s = ⟨P, s.bounds, c⟩ := by
    rw [← h.problem, ← h.config]
  unfold fit
  rw [h.input]
  dsimp only
  rw [heval]
  dsimp only
  rw [hfirst, hs]

theorem Begun.fit_eq {P : Problem α σ p} {initial : Vector α p}
    {lower upper : Option (Array (Scalar.Side α))} {c : Config α} {state : σ}
    {s : Setup α σ p} {r₀ : Run α σ n p}
    (h : Begun P initial lower upper c state s r₀) :
    (fit P initial lower upper c state).1 = .ok (s.finish (s.runFor c.maxIterations r₀).1
      (s.runFor c.maxIterations r₀).2).1 :=
  congrArg Prod.fst h.fit_finish

theorem Begun.ran {P : Problem α σ p} {initial : Vector α p}
    {lower upper : Option (Array (Scalar.Side α))} {c : Config α} {state : σ}
    {s : Setup α σ p} {r₀ : Run α σ n p}
    (h : Begun P initial lower upper c state s r₀) :
    ∃ l, s.Ran r₀ l (s.runFor c.maxIterations r₀).1 (s.runFor c.maxIterations r₀).2 := by
  have hmax : c.maxIterations ≠ 0 := by
    have hlimits := (Config.ranges_of_validate (validate_of_checkInput h.input)).2.2.1
    exact fun h0 => hlimits (.inr h0)
  obtain ⟨e, l, state', -, -, rfl⟩ := h.first
  rw [← h.config] at hmax ⊢
  exact s.runFor_start_ran rfl hmax

theorem fit_of_firstPoint {P : Problem α σ p} {initial : Vector α p}
    {lower upper : Option (Array (Scalar.Side α))} {c : Config α} {state : σ}
    {bounds : Option (Bounds α p)}
    (hinput : checkInput initial lower upper c = .ok bounds) {e : Evaluation α}
    (heval : (P.evaluate ((bounds.map (·.project initial)).getD initial) .jacobian state).1 =
      .ok e)
    {point : (n : Nat) × Linearized α n p}
    (hfirst : firstPoint ((bounds.map (·.project initial)).getD initial) e = .ok point) :
    ∃ report, (fit P initial lower upper c state).1 = .ok report := by
  have hbegun : Begun P initial lower upper c state ⟨P, bounds, c⟩ (.start c point.2
      (P.evaluate ((bounds.map (·.project initial)).getD initial) .jacobian state).2) :=
    ⟨rfl, rfl, hinput, e, point.2, _, Prod.ext heval rfl, hfirst, rfl⟩
  exact ⟨_, hbegun.fit_eq⟩

/-- With its input checked a fit asks for one evaluation, and then it has its first point or is
over. -/
theorem fit_begun {P : Problem α σ p} {initial : Vector α p}
    {lower upper : Option (Array (Scalar.Side α))} {c : Config α} {bounds : Option (Bounds α p)}
    (hinput : checkInput initial lower upper c = .ok bounds) (state : σ) :
    (∃ e, fit P initial lower upper c state = (.error e,
        (P.evaluate ((bounds.map (·.project initial)).getD initial) .jacobian state).2)) ∨
      ∃ (n : Nat) (r₀ : Run α σ n p), Begun P initial lower upper c state ⟨P, bounds, c⟩ r₀ ∧
        r₀.account.state =
          (P.evaluate ((bounds.map (·.project initial)).getD initial) .jacobian state).2 := by
  unfold fit
  rw [hinput]
  dsimp only
  cases heval : P.evaluate ((bounds.map (·.project initial)).getD initial) .jacobian state with
  | mk answer state' =>
    cases answer with
    | error e => exact .inl ⟨_, rfl⟩
    | ok e =>
      dsimp only
      cases hfirst : firstPoint ((bounds.map (·.project initial)).getD initial) e with
      | error e => exact .inl ⟨_, rfl⟩
      | ok point =>
        obtain ⟨n, l⟩ := point
        exact .inr ⟨n, .start c l state', ⟨rfl, rfl, hinput, e, l, state', heval, hfirst, rfl⟩,
          rfl⟩

theorem fit_ran {P : Problem α σ p} {initial : Vector α p}
    {lower upper : Option (Array (Scalar.Side α))} {c : Config α} {state : σ} {report : Report α p}
    (h : (fit P initial lower upper c state).1 = .ok report) :
    ∃ (n : Nat) (s : Setup α σ p) (r₀ : Run α σ n p) (l : List (Head α σ n p))
      (r : Run α σ n p) (o : Outcome), Begun P initial lower upper c state s r₀ ∧
        s.Ran r₀ l r o ∧ report = (s.finish r o).1 := by
  cases hinput : checkInput initial lower upper c with
  | error e =>
    unfold fit at h
    rw [hinput] at h
    cases h
  | ok bounds =>
    obtain ⟨e, he⟩ | ⟨n, r₀, hbegun, -⟩ := fit_begun (P := P) hinput state
    · rw [he] at h
      cases h
    · obtain ⟨l, hran⟩ := hbegun.ran
      rw [hbegun.fit_eq] at h
      exact ⟨n, _, r₀, l, _, _, hbegun, hran, (Except.ok.inj h).symm⟩

end LeastSquares
