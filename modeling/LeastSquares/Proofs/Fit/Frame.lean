import LeastSquares.Proofs.Fit.Trace
import Mathlib.Data.List.Chain

namespace LeastSquares

variable {α σ : Type} {n p : Nat} [Geometry α]

theorem Run.modelHessian_congr {r r' : Run α σ n p} (h : r'.secant = r.secant)
    (normal : Symmetric α p) (m : Model) : r'.modelHessian normal m = r.modelHessian normal m := by
  cases m with
  | gaussNewton => rfl
  | augmented => rw [modelHessian, modelHessian, h]

namespace Setup

variable (s : Setup α σ p) (h : Head α σ n p)

def target : Vector α p := h.run.search.iterate.x₀ + (s.clamped h).step

def answer : Except Failure (Vector α n) × Account σ :=
  s.problem.countedResiduals n (s.target h) h.run.account

/-- The residuals at the trial, if they can be had and their squares can be summed. -/
def found : Option (Vector α n) :=
  match (s.answer h).1 with
  | .ok v => if Scalar.isFinite (objective v) then some v else none
  | .error _ => none

def value : Option α := (s.found h).map objective

theorem tried_x : (s.tried h).search.iterate.x = s.target h := by
  rw [tried_eq]
  rfl

theorem tried_account : (s.tried h).account = h.run.account := by
  rw [tried_eq]

/-- The objective of a trial, where one that has none counts as the largest. -/
def scored : Search α p :=
  { (s.tried h).search with iterate := { (s.tried h).search.iterate with
      f := (s.value h).getD Scalar.huge
      oversized := (s.found h).isNone } }

theorem scored_eq : s.scored h = { h.run.search with
    trial := s.clamped h
    iterate := { h.run.search.iterate with
      x := s.target h
      f := (s.value h).getD Scalar.huge
      oversized := (s.found h).isNone } } := by
  unfold scored
  rw [tried_eq]
  rfl

theorem evaluated_search : (s.evaluated h).search = s.scored h := by
  unfold evaluated evaluateTrial scored value found answer
  rw [tried_x, tried_account]
  dsimp only
  cases (s.problem.countedResiduals n (s.target h) h.run.account).1 with
  | error e => rfl
  | ok v =>
    dsimp only
    split
    · unfold keepBest
      split <;> rfl
    · rfl

theorem evaluateTrial_of_finite {r : Run α σ n p} {v : Vector α n} {a : Account σ}
    (hr : s.problem.countedResiduals n r.search.iterate.x r.account = (.ok v, a))
    (hf : Scalar.isFinite (objective v) = true) :
    s.evaluateTrial r = { r with
      account := a
      search := { r.search with iterate := { r.search.iterate with
        f := objective v
        oversized := false } }
      trials := (r.search.iterate.x, v) :: r.trials
      best := if objective v < r.best.f then ⟨r.search.iterate.x, v, objective v⟩
        else r.best } := by
  unfold evaluateTrial
  dsimp only
  rw [hr]
  dsimp only
  rw [if_pos hf]
  unfold keepBest setTrialValue
  dsimp only
  split <;> rfl

theorem evaluated_of_found {v : Vector α n} (hv : s.found h = some v) :
    s.evaluated h = { s.tried h with
      account := (s.answer h).2
      search := s.scored h
      trials := (s.target h, v) :: h.run.trials
      best := if objective v < h.run.best.f then ⟨s.target h, v, objective v⟩
        else h.run.best } := by
  have htrials : (s.tried h).trials = h.run.trials := by rw [tried_eq]
  have hbest : (s.tried h).best = h.run.best := by rw [tried_eq]
  have hscored : s.scored h = { (s.tried h).search with
      iterate := { (s.tried h).search.iterate with f := objective v, oversized := false } } := by
    simp [scored, value, hv]
  obtain ⟨hok, hfinite⟩ : (s.answer h).1 = .ok v ∧ Scalar.isFinite (objective v) = true := by
    unfold found at hv
    cases hr : (s.answer h).1 with
    | error e => simp [hr] at hv
    | ok u =>
      simp only [hr] at hv
      split at hv
      · next hf =>
        obtain rfl := Option.some.inj hv
        exact ⟨rfl, hf⟩
      · cases hv
  have hanswer : s.problem.countedResiduals n (s.tried h).search.iterate.x (s.tried h).account =
      (.ok v, (s.answer h).2) := by
    rw [tried_x, tried_account, ← hok]
    rfl
  rw [evaluated, s.evaluateTrial_of_finite hanswer hfinite, hscored, htrials, hbest, tried_x]

theorem evaluated_of_not_found (hv : s.found h = none) :
    ∃ w : Warning, s.evaluated h = { s.tried h with
      account := (s.answer h).2
      search := s.scored h
      warnings := h.run.warnings ++ [w] } := by
  have hwarnings : (s.tried h).warnings = h.run.warnings := by rw [tried_eq]
  have hscored : s.scored h = { (s.tried h).search with
      iterate := { (s.tried h).search.iterate with f := Scalar.huge, oversized := true } } := by
    simp [scored, value, hv]
  have hanswer : s.problem.countedResiduals n (s.tried h).search.iterate.x (s.tried h).account =
      s.answer h := by
    rw [tried_x, tried_account]
    rfl
  unfold found at hv
  unfold evaluated evaluateTrial
  dsimp only
  rw [hanswer, hscored, ← hwarnings]
  dsimp only
  cases hr : (s.answer h).1 with
  | error e => exact ⟨_, rfl⟩
  | ok u =>
    simp only [hr] at hv
    split at hv
    · cases hv
    · next hf =>
      dsimp only
      rw [if_neg hf]
      exact ⟨_, rfl⟩

theorem judged_eq : ∃ search memory,
    s.judged h = { s.evaluated h with search, memory } ∧
      ((assess s.config (s.scored h)).verdict ≠ .probe ∧
          search = assess s.config (s.scored h) ∧ memory = (s.evaluated h).memory ∨
        (assess s.config (s.scored h)).verdict = .probe ∧
          ∃ t, search = assess s.config { assess s.config (s.scored h) with trial := t } ∧
            (t, memory) = trustStep s.config ((s.tried h).hessian h.normal) h.gradient
              (assess s.config (s.scored h)).iterate.d s.config.initialTrustRadius
              (s.evaluated h).memory) := by
  unfold judged judge
  rw [evaluated_search]
  dsimp only
  split
  · next hprobe => exact ⟨_, _, rfl, .inr ⟨hprobe, _, rfl, rfl⟩⟩
  · next hprobe => exact ⟨_, _, rfl, .inl ⟨hprobe, rfl, rfl⟩⟩

theorem judged_search (hv : (assess s.config (s.scored h)).verdict ≠ .probe) :
    (s.judged h).search = assess s.config (s.scored h) := by
  obtain ⟨search, memory, hjudged, hcase⟩ := s.judged_eq h
  rw [hjudged]
  rcases hcase with ⟨-, hsearch, -⟩ | ⟨hprobe, -⟩
  · exact hsearch
  · exact absurd hprobe hv

variable {h} in
theorem judged_of_assess {e : Search α p} (hassess : assess s.config (s.scored h) = e)
    (hv : e.verdict ≠ .probe) : (s.judged h).search = e := by
  rw [← hassess] at hv ⊢
  exact s.judged_search h hv

def accepted : Accepted α n p where
  x := (s.judged h).search.iterate.x₀
  gradient := h.gradient
  jacobian := (s.judged h).base.jacobian
  d := (s.judged h).search.iterate.d
  normal := h.normal
  hessian := (s.tried h).hessian h.normal
  verdict := (s.judged h).search.verdict
  radiusFactor := (s.judged h).search.record.radiusFactor
  length := (s.judged h).search.trial.length

/-- The step of this trial, or of an earlier one that it was measured against, goes through. -/
def Passed (r : Run α σ n p) : Prop :=
  ((s.judged h).search.verdict = .acceptByGradient ∨ (s.judged h).search.verdict = .accept) ∧
    ∃ v j a state, s.problem.countedLinearization n (s.judged h).search.iterate.x
        (s.judged h).account = (.ok (v, j), a) ∧
      r = { s.judged h with
        account := { a with state }
        base := ⟨(s.judged h).search.iterate.x, v, j⟩
        previous := some (s.accepted h) }

inductive Step : Run α σ n p → Next → Prop where
  | other : (s.judged h).search.verdict = .otherOrShorter ∨
        (s.judged h).search.verdict = .otherOrAccept →
      Step ((s.judged h).setModel (s.tried h).search.iterate.model.other) .again
  | again : (s.judged h).search.verdict = .recompute →
      Step ((s.judged h).setRadius ((s.judged h).search.record.radiusFactor * (s.judged h).reach))
        .again
  | lost {e : Failure} {a : Account σ} : (s.judged h).search.verdict = .acceptByGradient ∨
        (s.judged h).search.verdict = .accept →
      s.problem.countedLinearization n (s.judged h).search.iterate.x (s.judged h).account =
        (.error e, a) →
      Step (s.retreat (Run.warn { s.judged h with account := a } (.acceptedJacobian e))) .again
  | passed {r : Run α σ n p} : s.Passed h r → Step r .accepted
  | stopped {r : Run α σ n p} : s.Passed h r → Step r (.finished .userStop)
  | ended : (s.judged h).search.verdict.code = 6 ∨ 6 < (s.judged h).search.verdict.code →
      Step (s.judged h)
        (.finished ((s.judged h).search.verdict.outcome?.getD .badInput))

theorem accept_step (hv : (s.judged h).search.verdict = .acceptByGradient ∨
      (s.judged h).search.verdict = .accept) :
    s.Step h (s.accept h.gradient h.normal ((s.tried h).hessian h.normal) (s.judged h)).1
      (s.accept h.gradient h.normal ((s.tried h).hessian h.normal) (s.judged h)).2 := by
  unfold accept
  dsimp only
  cases hj : s.problem.countedLinearization n (s.judged h).search.iterate.x
      (s.judged h).account with
  | mk answer a =>
    cases answer with
    | error e => exact .lost hv hj
    | ok answer =>
      obtain ⟨v, j⟩ := answer
      have hpassed (state : σ) : s.Passed h _ := ⟨hv, v, j, a, state, hj, rfl⟩
      dsimp only
      split
      · exact .stopped (hpassed _)
      · exact .passed (hpassed _)

theorem followed_step : s.Step h (s.followed h).1 (s.followed h).2 := by
  unfold followed follow
  cases hv : (s.judged h).search.verdict with
  | otherOrShorter => exact .other (.inl hv)
  | otherOrAccept => exact .other (.inr hv)
  | recompute => exact .again hv
  | acceptByGradient => exact s.accept_step h (.inl hv)
  | accept => exact s.accept_step h (.inr hv)
  | _ =>
    dsimp only
    rw [← hv]
    exact .ended (by rw [hv]; decide)

theorem followed_again {r : Run α σ n p} (hr : s.followed h = (r, .again)) :
    (((s.judged h).search.verdict = .otherOrShorter ∨
        (s.judged h).search.verdict = .otherOrAccept) ∧
      r = (s.judged h).setModel (s.tried h).search.iterate.model.other) ∨
    ((s.judged h).search.verdict = .recompute ∧ r = (s.judged h).setRadius
      ((s.judged h).search.record.radiusFactor * (s.judged h).reach)) ∨
    (((s.judged h).search.verdict = .acceptByGradient ∨
        (s.judged h).search.verdict = .accept) ∧
      ∃ e a, s.problem.countedLinearization n (s.judged h).search.iterate.x
          (s.judged h).account = (.error e, a) ∧
        r = s.retreat (Run.warn { s.judged h with account := a } (.acceptedJacobian e))) := by
  have hstep := s.followed_step h
  rw [hr] at hstep
  generalize hnext : Next.again = next at hstep
  cases hstep with
  | other hv => exact .inl ⟨hv, rfl⟩
  | again hv => exact .inr (.inl ⟨hv, rfl⟩)
  | lost hv hj => exact .inr (.inr ⟨hv, _, _, hj, rfl⟩)
  | _ => cases hnext

variable {h} in
theorem followed_of_other (hv : (s.judged h).search.verdict = .otherOrShorter ∨
      (s.judged h).search.verdict = .otherOrAccept) :
    s.followed h = ((s.judged h).setModel h.run.search.iterate.model.other, .again) := by
  have hmodel : (s.tried h).search.iterate.model = h.run.search.iterate.model := by rw [tried_eq]
  rw [← hmodel]
  unfold followed follow
  rcases hv with hv | hv <;> rw [hv]

variable {h} in
theorem followed_of_recompute (hv : (s.judged h).search.verdict = .recompute) :
    s.followed h = ((s.judged h).setRadius
      ((s.judged h).search.record.radiusFactor * (s.judged h).reach), .again) := by
  unfold followed follow
  rw [hv]

variable {h} in
theorem followed_of_unanswered (hv : (s.judged h).search.verdict = .accept) {e : Failure}
    {a : Account σ} (hanswer : s.problem.countedLinearization n (s.judged h).search.iterate.x
      (s.judged h).account = (.error e, a)) :
    s.followed h =
      (s.retreat (Run.warn { s.judged h with account := a } (.acceptedJacobian e)), .again) := by
  unfold followed follow
  rw [hv]
  dsimp only
  unfold accept
  dsimp only
  rw [hanswer]

theorem followed_of_outcome {o : Outcome} (ho : (s.judged h).search.verdict.outcome? = some o) :
    s.followed h = (s.judged h, .finished o) := by
  unfold followed follow
  cases hv : (s.judged h).search.verdict <;> rw [hv] at ho <;> cases ho <;> rfl

theorem again_eq {r : Run α σ n p} (hr : s.followed h = (r, .again)) :
    ∃ verdict x f model radius account warnings, r = { s.judged h with
      search := { (s.judged h).search with
        verdict
        iterate := { (s.judged h).search.iterate with x, f, model, radius } }
      account
      warnings } := by
  have hagain := s.followed_again h hr
  generalize s.judged h = judged at hagain ⊢
  rcases hagain with ⟨-, rfl⟩ | ⟨-, rfl⟩ | ⟨-, e, a, -, rfl⟩ <;>
    exact ⟨_, _, _, _, _, _, _, rfl⟩

theorem followed_accepted {r : Run α σ n p} (hr : s.followed h = (r, .accepted)) :
    s.Passed h r := by
  have hstep := s.followed_step h
  rw [hr] at hstep
  generalize hnext : Next.accepted = next at hstep
  cases hstep with
  | passed hr => exact hr
  | _ => cases hnext

theorem followed_of_answered (hv : (s.judged h).search.verdict = .acceptByGradient)
    {e : Vector α n × Dense α n p} (hanswer : (s.problem.countedLinearization n
      (s.judged h).search.iterate.x (s.judged h).account).1 = .ok e)
    (hstop : ∀ k x state, (s.problem.stopRequested k x state).1 = false) :
    ∃ r, s.followed h = (r, .accepted) := by
  unfold followed follow
  rw [hv]
  dsimp only
  unfold accept
  dsimp only
  rw [hanswer]
  dsimp only
  rw [hstop]
  exact ⟨_, rfl⟩

theorem followed_finished {r : Run α σ n p} {o : Outcome}
    (hr : s.followed h = (r, .finished o)) :
    s.Passed h r ∧ o = .userStop ∨
      ((s.judged h).search.verdict.code = 6 ∨ 6 < (s.judged h).search.verdict.code) ∧
        r = s.judged h ∧ o = (s.judged h).search.verdict.outcome?.getD .badInput := by
  have hstep := s.followed_step h
  rw [hr] at hstep
  generalize hnext : Next.finished o = next at hstep
  cases hstep with
  | stopped hr => exact .inl ⟨hr, Next.finished.inj hnext⟩
  | ended hv => exact .inr ⟨hv, rfl, Next.finished.inj hnext⟩
  | _ => cases hnext

variable {h} in
theorem passes_suffix {r₀ : Run α σ n p} {l l' : List (Head α σ n p)} (hl : s.Passes r₀ l)
    (hsuffix : h :: l' <:+ l) : s.Passes r₀ (h :: l') := by
  induction hl with
  | opened =>
    rcases List.suffix_cons_iff.mp hsuffix with heq | hnil
    · rw [heq]
      exact .opened
    · exact absurd (List.suffix_nil.mp hnil) (List.cons_ne_nil _ _)
  | again hl hcontinues hr ih =>
    rcases List.suffix_cons_iff.mp hsuffix with heq | htail
    · rw [heq]
      exact .again hl hcontinues hr
    · exact ih htail
  | next hl hcontinues hr hmax ih =>
    rcases List.suffix_cons_iff.mp hsuffix with heq | htail
    · rw [heq]
      exact .next hl hcontinues hr hmax
    · exact ih htail

/-- What holds of the first trial of a run, and from one trial to the next, holds of all. A fact
about each trial of the run may be used where the step is taken. -/
theorem passes_invariant {I : Head α σ n p → Prop} {r₀ : Run α σ n p} {l : List (Head α σ n p)}
    (hl : s.Passes r₀ l) (hopening : I (s.opening r₀))
    (hagain : ∀ h l' r, s.Passes r₀ (h :: l') → h ∈ l → I h → s.Continues h →
      s.followed h = (r, .again) → I ⟨h.gradient, h.normal, r⟩)
    (hnext : ∀ h l' r, s.Passes r₀ (h :: l') → h ∈ l → I h → s.Continues h →
      s.followed h = (r, .accepted) → I (s.opening r)) :
    ∀ h ∈ l, I h := by
  induction hl with
  | opened => exact List.forall_mem_singleton.mpr hopening
  | @again q l r hl hcontinues hr ih =>
    have ih := ih (fun h l' r hl' hh => hagain h l' r hl' (List.mem_cons_of_mem _ hh))
      fun h l' r hl' hh => hnext h l' r hl' (List.mem_cons_of_mem _ hh)
    have hq : q ∈ q :: l := List.mem_cons_self
    exact List.forall_mem_cons.mpr
      ⟨hagain q l r hl (List.mem_cons_of_mem _ hq) (ih q hq) hcontinues hr, ih⟩
  | @next q l r hl hcontinues hr _ ih =>
    have ih := ih (fun h l' r hl' hh => hagain h l' r hl' (List.mem_cons_of_mem _ hh))
      fun h l' r hl' hh => hnext h l' r hl' (List.mem_cons_of_mem _ hh)
    have hq : q ∈ q :: l := List.mem_cons_self
    exact List.forall_mem_cons.mpr
      ⟨hnext q l r hl (List.mem_cons_of_mem _ hq) (ih q hq) hcontinues hr, ih⟩

section

variable {β : Type} {f : Head α σ n p → List β} {R : β → β → Prop} {r₀ : Run α σ n p}
  {l : List (Head α σ n p)}

theorem passes_isChain (hl : s.Passes r₀ l) (hne : ∀ h, f h ≠ [])
    (hchain : ∀ h, (f h).IsChain R)
    (hagain : ∀ h r, s.followed h = (r, .again) →
      ∀ x ∈ (f ⟨h.gradient, h.normal, r⟩).getLast?, ∀ y ∈ (f h).head?, R x y)
    (hnext : ∀ h r, s.followed h = (r, .accepted) →
      ∀ x ∈ (f (s.opening r)).getLast?, ∀ y ∈ (f h).head?, R x y) :
    (l.flatMap f).IsChain R := by
  have hcons {q h : Head α σ n p} {l : List (Head α σ n p)}
      (hlink : ∀ x ∈ (f q).getLast?, ∀ y ∈ (f h).head?, R x y)
      (hl : ((h :: l).flatMap f).IsChain R) : ((q :: h :: l).flatMap f).IsChain R := by
    rw [List.flatMap_cons]
    refine (hchain q).append hl fun x hx y hy => hlink x hx y ?_
    rw [List.flatMap_cons, List.head?_append_of_ne_nil _ (hne h)] at hy
    exact hy
  induction hl with
  | opened =>
    rw [List.flatMap_singleton]
    exact hchain _
  | again _ _ hr ih => exact hcons (hagain _ _ hr) ih
  | next _ _ hr _ ih => exact hcons (hnext _ _ hr) ih

theorem passes_getLast? (hl : s.Passes r₀ l) (hne : ∀ h, f h ≠ []) :
    (l.flatMap f).getLast? = (f (s.opening r₀)).getLast? := by
  have hcons {q h : Head α σ n p} {l : List (Head α σ n p)} :
      ((q :: h :: l).flatMap f).getLast? = ((h :: l).flatMap f).getLast? := by
    rw [List.flatMap_cons, List.getLast?_append_of_ne_nil]
    exact fun hnil => hne h (List.append_eq_nil_iff.mp hnil).1
  induction hl with
  | opened => rw [List.flatMap_singleton]
  | again _ _ _ ih => rw [hcons, ih]
  | next _ _ _ _ ih => rw [hcons, ih]

end

end Setup

end LeastSquares
