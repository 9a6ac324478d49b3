import LeastSquares.Proofs.Assess.Least
import LeastSquares.Proofs.Fit.Begun
import LeastSquares.Proofs.Fit.Steady

namespace LeastSquares

variable {σ : Type} {n p : Nat}

section

variable {α : Type} [Scalar α]

/-- The residuals are a function of the parameters wherever they can be had. -/
def Problem.Answers (P : Problem α σ p) (R : Vector α p → Array α) : Prop :=
  ∀ x mode state e, (P.evaluate x mode state).1 = .ok e → e.residuals = R x

variable {P : Problem α σ p} {R : Vector α p → Array α}

theorem toArray_of_checkedResiduals {r : Array α} {v : Vector α n}
    (h : checkedResiduals n r = .ok v) : v.toArray = r := by
  unfold checkedResiduals at h
  split at h
  · split at h
    · cases h
      rfl
    · cases h
  · cases h

/-- The residuals are what the problem answered at the point, at one time or another. -/
def Problem.Gives (P : Problem α σ p) (x : Vector α p) (v : Vector α n) : Prop :=
  ∃ mode state e, (P.evaluate x mode state).1 = .ok e ∧ e.residuals = v.toArray

theorem gives_of_countedResiduals {x : Vector α p} {a : Account σ} {v : Vector α n}
    (h : (P.countedResiduals n x a).1 = .ok v) : P.Gives x v := by
  have hok : ((P.evaluate x .residuals a.state).1 >>= fun e => checkedResiduals n e.residuals) =
      .ok v := h
  cases he : (P.evaluate x .residuals a.state).1 with
  | error e =>
    rw [he] at hok
    cases hok
  | ok e =>
    rw [he] at hok
    exact ⟨.residuals, a.state, e, he, (toArray_of_checkedResiduals hok).symm⟩

omit [Scalar α] in
theorem Problem.Answers.gives (hP : P.Answers R) {x : Vector α p} {v : Vector α n}
    (h : P.Gives x v) : v.toArray = R x := by
  obtain ⟨mode, state, e, he, hresiduals⟩ := h
  rw [← hresiduals]
  exact hP x mode state e he

theorem Problem.Answers.residuals (hP : P.Answers R) {x : Vector α p} {a : Account σ}
    {v : Vector α n} (h : (P.countedResiduals n x a).1 = .ok v) : v.toArray = R x :=
  hP.gives (gives_of_countedResiduals h)

/-- What the problem has answered at the point, when it was asked for the Jacobian too. -/
def Linearized.Answered (l : Linearized α n p) (P : Problem α σ p) : Prop :=
  ∃ state e j, (P.evaluate l.x .jacobian state).1 = .ok e ∧ e.residuals = l.residuals.toArray ∧
    e.jacobian = some j ∧ j.shaped? n p = some l.jacobian

theorem shaped?_of_checkedJacobian {a : Option (AnyDense α)} {j : Dense α n p}
    (h : checkedJacobian n p a = .ok j) : ∃ b, a = some b ∧ b.shaped? n p = some j := by
  unfold checkedJacobian at h
  split at h
  · cases h
  · next b =>
    refine ⟨b, rfl, ?_⟩
    split at h
    · cases h
    · next hshape =>
      split at h
      · cases h
        exact hshape
      · cases h

theorem answered_of_countedLinearization {x : Vector α p} {a : Account σ} {v : Vector α n}
    {j : Dense α n p} (h : (P.countedLinearization n x a).1 = .ok (v, j)) :
    Linearized.Answered ⟨x, v, j⟩ P := by
  have hok : ((P.evaluate x .jacobian a.state).1 >>= fun e => do
      let r ← checkedResiduals n e.residuals
      let j ← checkedJacobian n p e.jacobian
      return (r, j)) = .ok (v, j) := h
  cases he : (P.evaluate x .jacobian a.state).1 with
  | error e =>
    rw [he] at hok
    cases hok
  | ok e =>
    rw [he] at hok
    simp only [bind, Except.bind] at hok
    cases hr : checkedResiduals n e.residuals with
    | error f =>
      simp only [hr] at hok
      cases hok
    | ok r =>
      cases hj : checkedJacobian n p e.jacobian with
      | error f =>
        simp only [hr, hj] at hok
        cases hok
      | ok j' =>
        simp only [hr, hj] at hok
        cases hok
        obtain ⟨b, hb, hshape⟩ := shaped?_of_checkedJacobian hj
        exact ⟨a.state, e, b, he, (toArray_of_checkedResiduals hr).symm, hb, hshape⟩

omit [Scalar α] in
theorem Linearized.Answered.gives {l : Linearized α n p} (h : l.Answered P) :
    P.Gives l.x l.residuals := by
  obtain ⟨state, e, -, he, hresiduals, -⟩ := h
  exact ⟨.jacobian, state, e, he, hresiduals⟩

theorem Problem.Answers.linearization (hP : P.Answers R) {x : Vector α p} {a : Account σ}
    {v : Vector α n} {j : Dense α n p} (h : (P.countedLinearization n x a).1 = .ok (v, j)) :
    v.toArray = R x :=
  hP.gives (answered_of_countedLinearization h).gives

end

theorem Setup.gives_of_found {α : Type} [Geometry α] (s : Setup α σ p) {h : Head α σ n p}
    {v : Vector α n} (hv : s.found h = some v) : s.problem.Gives (s.target h) v := by
  unfold found at hv
  cases hanswer : (s.answer h).1 with
  | error e => simp [hanswer] at hv
  | ok u =>
    simp only [hanswer] at hv
    split at hv
    · obtain rfl := Option.some.inj hv
      exact gives_of_countedResiduals hanswer
    · cases hv

/-- The points of a run with the residuals they have. -/
structure Run.Known (R : Vector ℝ p → Array ℝ) (r : Run ℝ σ n p) : Prop where
  base : r.base.residuals.toArray = R r.base.x
  best : r.best.residuals.toArray = R r.best.x
  value : r.best.f = objective r.best.residuals
  trials : ∀ t ∈ r.trials, t.2.toArray = R t.1 ∧ r.best.f ≤ objective t.2

/-- A run between two iterations, where the residuals of its points are known. -/
structure Run.Settled (R : Vector ℝ p → Array ℝ) (r : Run ℝ σ n p) : Prop extends
    r.Known R where
  place : r.base.x = r.search.iterate.x
  start : objective r.base.residuals = r.search.iterate.f
  least : r.best.f ≤ r.search.iterate.f
  small : r.search.iterate.f ≤ Scalar.huge

/-- A run before a trial, where the residuals of its points are known. -/
structure Head.Known (R : Vector ℝ p → Array ℝ) (h : Head ℝ σ n p) : Prop where
  run : h.run.Known R
  place : h.run.base.x = h.run.search.iterate.x₀
  start : objective h.run.base.residuals = h.run.search.iterate.f₀
  least : h.run.best.f ≤ h.run.search.iterate.f₀
  small : h.run.search.iterate.f₀ ≤ Scalar.huge
  best : ¬h.run.search.Opens → h.run.search.record.bestF < h.run.search.iterate.f₀ →
    0 ≤ h.run.search.record.bestReduction ∧
      ∃ v, (h.run.search.iterate.x₀ + h.run.search.record.bestStep, v) ∈ h.run.trials ∧
        objective v = h.run.search.record.bestF

namespace Setup

variable (s : Setup ℝ σ p) {h : Head ℝ σ n p} {R : Vector ℝ p → Array ℝ}

theorem found_toArray (hP : s.problem.Answers R) {v : Vector ℝ n} (hv : s.found h = some v) :
    v.toArray = R (s.target h) :=
  hP.gives (s.gives_of_found hv)

theorem judged_of_not_found (hv : s.found h = none) :
    (s.judged h).trials = h.run.trials ∧ (s.judged h).best = h.run.best := by
  obtain ⟨search, memory, hjudged, -⟩ := s.judged_eq h
  obtain ⟨w, heq⟩ := s.evaluated_of_not_found h hv
  rw [hjudged, heq, tried_eq]
  exact ⟨rfl, rfl⟩

theorem judged_of_found {v : Vector ℝ n} (hv : s.found h = some v) :
    (s.judged h).trials = (s.target h, v) :: h.run.trials ∧
      (objective v < h.run.best.f ∧ (s.judged h).best = ⟨s.target h, v, objective v⟩ ∨
        h.run.best.f ≤ objective v ∧ (s.judged h).best = h.run.best) := by
  obtain ⟨search, memory, hjudged, -⟩ := s.judged_eq h
  rw [hjudged, s.evaluated_of_found h hv]
  refine ⟨rfl, ?_⟩
  dsimp only
  split
  · next hless => exact .inl ⟨hless, rfl⟩
  · next hless => exact .inr ⟨not_lt.mp hless, rfl⟩

theorem judged_best_f : (s.judged h).best.f = (s.scored h).lowered h.run.best.f := by
  rw [scored_eq]
  unfold Search.lowered
  dsimp only
  cases hv : s.found h with
  | none =>
    obtain ⟨-, hbest⟩ := s.judged_of_not_found hv
    rw [hbest]
    rfl
  | some v =>
    have hvalue : s.value h = some (objective v) := by rw [value, hv]; rfl
    rw [hvalue]
    change _ = min h.run.best.f (objective v)
    obtain ⟨-, ⟨hless, hbest⟩ | ⟨hle, hbest⟩⟩ := s.judged_of_found hv
    · rw [hbest, min_eq_right hless.le]
    · rw [hbest, min_eq_left hle]

theorem judged_known (hP : s.problem.Answers R) (hh : h.run.Known R) : (s.judged h).Known R := by
  have hbase : (s.judged h).base.residuals.toArray = R (s.judged h).base.x := by
    rw [judged_base]
    exact hh.base
  cases hv : s.found h with
  | none =>
    obtain ⟨htrials, hbest⟩ := s.judged_of_not_found hv
    refine ⟨hbase, ?_, ?_, ?_⟩
    · rw [hbest]
      exact hh.best
    · rw [hbest]
      exact hh.value
    · rw [hbest, htrials]
      exact hh.trials
  | some v =>
    have hvalue := s.found_toArray hP hv
    obtain ⟨htrials, ⟨hless, hbest⟩ | ⟨hle, hbest⟩⟩ := s.judged_of_found hv
    · refine ⟨hbase, ?_, ?_, ?_⟩
      · rw [hbest]
        exact hvalue
      · rw [hbest]
      · rw [hbest, htrials]
        exact List.forall_mem_cons.mpr ⟨⟨hvalue, le_rfl⟩, fun t ht =>
          ⟨(hh.trials t ht).1, hless.le.trans (hh.trials t ht).2⟩⟩
    · refine ⟨hbase, ?_, ?_, ?_⟩
      · rw [hbest]
        exact hh.best
      · rw [hbest]
        exact hh.value
      · rw [hbest, htrials]
        exact List.forall_mem_cons.mpr ⟨⟨hvalue, hle⟩, hh.trials⟩

theorem judged_trials : ∀ t ∈ h.run.trials, t ∈ (s.judged h).trials := by
  intro t ht
  cases hv : s.found h with
  | none =>
    rw [(s.judged_of_not_found hv).1]
    exact ht
  | some v =>
    rw [(s.judged_of_found hv).1]
    exact List.mem_cons_of_mem _ ht

theorem scored_backed (hloss : stretchLoss s.config ≤ 1) (hs : h.Steady) (hh : h.Known R) :
    (s.scored h).Backed (s.judged h).trials := by
  rw [scored_eq]
  refine ⟨(s.clamped_nonneg hs).2 hloss, rfl, fun hfits => ?_, fun hlarge => ?_,
    fun hopens hgain => ?_⟩
  · change (s.found h).isNone = false at hfits
    obtain ⟨v, hv⟩ := Option.isSome_iff_exists.mp (Option.isNone_eq_false_iff.mp hfits)
    refine ⟨v, ?_, ?_⟩
    · rw [(s.judged_of_found hv).1]
      exact List.mem_cons_self
    · dsimp only
      rw [value, hv]
      rfl
  · change (s.found h).isNone = true at hlarge
    dsimp only
    rw [value, Option.isNone_iff_eq_none.mp hlarge]
    exact hh.small
  · obtain ⟨hreduction, v, hv, hvalue⟩ := hh.best hopens hgain
    exact ⟨hreduction, v, s.judged_trials _ hv, hvalue⟩

theorem judged_least (hh : h.Known R) : (s.judged h).best.f ≤ h.run.search.iterate.f₀ := by
  rw [judged_best_f]
  unfold Search.lowered
  split
  · exact hh.least
  · exact (min_le_left _ _).trans hh.least

section

variable (hP : s.problem.Answers R) (hloss : stretchLoss s.config ≤ 1) (hs : h.Steady)
  (hh : h.Known R)
include hP hloss hs hh

theorem judged_head {i : Iterate ℝ p} (hx₀ : i.x₀ = (s.judged h).search.iterate.x₀)
    (hf₀ : i.f₀ = (s.judged h).search.iterate.f₀)
    (hv : (s.judged h).search.verdict = .otherOrShorter ∨
      (s.judged h).search.verdict = .otherOrAccept ∨ (s.judged h).search.verdict = .recompute) :
    Head.Known R ⟨h.gradient, h.normal,
      { s.judged h with search := { (s.judged h).search with iterate := i } }⟩ := by
  obtain ⟨hjudged, -⟩ := s.judged_judged hs
  have hbacked := s.scored_backed hloss hs hh
  have hknown := s.judged_known hP hh.run
  have hx₀ : i.x₀ = h.run.search.iterate.x₀ := by
    rw [hx₀, hjudged.x₀_eq, scored_eq]
  have hf₀ : i.f₀ = h.run.search.iterate.f₀ := by
    rw [hf₀, hjudged.f₀_eq, scored_eq]
  refine ⟨⟨hknown.base, hknown.best, hknown.value, hknown.trials⟩, ?_, ?_, ?_, ?_,
    fun _ hgain => ?_⟩
  · change (s.judged h).base.x = i.x₀
    rw [judged_base, hx₀, hh.place]
  · change objective (s.judged h).base.residuals = i.f₀
    rw [judged_base, hf₀, hh.start]
  · change (s.judged h).best.f ≤ i.f₀
    rw [hf₀]
    exact s.judged_least hh
  · change i.f₀ ≤ Scalar.huge
    rw [hf₀]
    exact hh.small
  · change (s.judged h).search.record.bestF < i.f₀ at hgain
    have hretried := (hjudged.retried hbacked hv).1
    rw [scored_eq] at hretried
    dsimp only at hretried ⊢
    rw [hx₀]
    rw [hf₀] at hgain
    exact hretried hgain

theorem known_again {r : Run ℝ σ n p} (hr : s.followed h = (r, .again)) :
    Head.Known R ⟨h.gradient, h.normal, r⟩ := by
  rcases s.followed_again h hr with ⟨hv, rfl⟩ | ⟨hv, rfl⟩ | ⟨hv, e, a, -, rfl⟩
  · exact s.judged_head hP hloss hs hh rfl rfl (hv.imp_right .inl)
  · exact s.judged_head hP hloss hs hh rfl rfl (.inr (.inr hv))
  · obtain ⟨hjudged, -⟩ := s.judged_judged hs
    have hknown := s.judged_known hP hh.run
    have hx₀ : (s.judged h).search.iterate.x₀ = h.run.search.iterate.x₀ := by
      rw [hjudged.x₀_eq, scored_eq]
    have hf₀ : (s.judged h).search.iterate.f₀ = h.run.search.iterate.f₀ := by
      rw [hjudged.f₀_eq, scored_eq]
    refine ⟨⟨hknown.base, hknown.best, hknown.value, hknown.trials⟩, ?_, ?_, ?_, ?_,
      fun hopens => absurd (.inr (.inl rfl)) hopens⟩
    · change (s.judged h).base.x = (s.judged h).search.iterate.x₀
      rw [judged_base, hx₀, hh.place]
    · change objective (s.judged h).base.residuals = (s.judged h).search.iterate.f₀
      rw [judged_base, hf₀, hh.start]
    · change (s.judged h).best.f ≤ (s.judged h).search.iterate.f₀
      rw [hf₀]
      exact s.judged_least hh
    · change (s.judged h).search.iterate.f₀ ≤ Scalar.huge
      rw [hf₀]
      exact hh.small

theorem passed_settled (hc : 0 ≤ s.config.tuner2) {r : Run ℝ σ n p} (hr : s.Passed h r) :
    r.Settled R ∧ r.search.iterate.f < h.run.search.iterate.f₀ := by
  obtain ⟨hjudged, -⟩ := s.judged_judged hs
  have hbacked := s.scored_backed hloss hs hh
  have hknown := s.judged_known hP hh.run
  obtain ⟨hv, v, j, a, state, hj, rfl⟩ := hr
  obtain ⟨hgain, ⟨u, hu, hvalue⟩, -⟩ := hjudged.accepted hc hbacked hv
  rw [scored_eq] at hgain
  obtain ⟨hanswer, hleast⟩ := hknown.trials _ hu
  have hresiduals : v.toArray = R (s.judged h).search.iterate.x :=
    hP.linearization (congrArg Prod.fst hj)
  have hsame : v = u := Vector.toArray_inj.mp (hresiduals.trans hanswer.symm)
  refine ⟨⟨⟨hresiduals, hknown.best, hknown.value, hknown.trials⟩, rfl, ?_, ?_, ?_⟩, hgain⟩
  · change objective v = (s.judged h).search.iterate.f
    rw [hsame, hvalue]
  · change (s.judged h).best.f ≤ (s.judged h).search.iterate.f
    rw [← hvalue]
    exact hleast
  · exact hgain.le.trans hh.small

end

theorem known_opening {r : Run ℝ σ n p} (hr : r.Settled R)
    (hv : r.search.verdict = .acceptByGradient ∨ r.search.verdict = .accept) :
    (s.opening r).Known R := by
  obtain ⟨_, _, _, _, _, _, -, heq⟩ := s.opening_run r
  refine ⟨?_, ?_, ?_, ?_, ?_, fun hopens => absurd ?_ hopens⟩
  · rw [heq]
    exact ⟨hr.base, hr.best, hr.value, fun t ht => absurd ht List.not_mem_nil⟩
  · rw [heq]
    exact hr.place
  · rw [heq]
    exact hr.start
  · rw [heq]
    exact hr.least
  · rw [heq]
    exact hr.small
  · rw [heq]
    exact hv.imp_right .inl

theorem passes_known (hP : s.problem.Answers R) (hloss : stretchLoss s.config ≤ 1)
    (hc : 0 ≤ s.config.tuner2) {r₀ : Run ℝ σ n p} (hr₀ : r₀.Settled R)
    (hstart : r₀.search.verdict = .accept) {l : List (Head ℝ σ n p)} (hl : s.Passes r₀ l) :
    ∀ h ∈ l, h.Steady ∧ h.Known R := by
  have hsteady := s.passes_steady hstart hl
  refine fun h hh => ⟨hsteady h hh, s.passes_invariant hl (s.known_opening hr₀ (.inr hstart))
    ?again ?next h hh⟩
  case again =>
    intro h _ r _ hmem hh _ hr
    exact s.known_again hP hloss (hsteady h hmem) hh hr
  case next =>
    intro h _ r _ hmem hh _ hr
    have hpassed := s.followed_accepted h hr
    have hsettled := (s.passed_settled hP hloss (hsteady h hmem) hh hc hpassed).1
    obtain ⟨hv, _, _, _, _, -, rfl⟩ := hpassed
    exact s.known_opening hsettled hv

end Setup

end LeastSquares
