import LeastSquares.Proofs.Assess.Paired
import LeastSquares.Proofs.Fit.Budget

namespace LeastSquares

variable {α σ : Type} {n p : Nat} [Geometry α]

namespace Setup

variable (s : Setup α σ p) {h : Head α σ n p}

def Forgets (h : Head α σ n p) : Prop := (assess s.config (s.scored h)).Forgets

/-- The step of this trial was accepted, and taken back for want of a Jacobian. -/
def Retreats (h : Head α σ n p) : Prop :=
  ((s.judged h).search.verdict = .acceptByGradient ∨ (s.judged h).search.verdict = .accept) ∧
    ∃ r, s.followed h = (r, .again)

section Paired

theorem judged_alone (hh : h.Timely) (hpaired : h.run.search.Paired) :
    (s.judged h).search.Alone h.run.search.iterate.model := by
  have hscored : (s.scored h).Paired := by
    rw [scored_eq]
    exact hpaired
  have hmodel : (s.scored h).iterate.model = h.run.search.iterate.model := by rw [scored_eq]
  have halone := hscored.assess (c := s.config) (s.scored_timely hh)
  rw [hmodel] at halone
  obtain ⟨search, memory, hjudged, hcase⟩ := s.judged_eq h
  rw [hjudged]
  rcases hcase with ⟨-, rfl, -⟩ | ⟨hv, t, rfl, -⟩
  · exact halone
  · obtain ⟨v, heq, -⟩ := Search.assess_probe s.config
      (s := { assess s.config (s.scored h) with trial := t }) hv
    dsimp only
    rw [heq]
    exact halone

theorem paired_opening {r : Run α σ n p} (hr : r.search.verdict = .acceptByGradient ∨
    r.search.verdict = .accept) : (s.opening r).run.search.Paired := by
  obtain ⟨_, _, _, _, _, _, -, heq⟩ := s.opening_run r
  rw [heq]
  unfold Search.Paired
  dsimp only
  rcases hr with hr | hr <;> rw [hr]

theorem paired_again (hh : h.Timely) (hpaired : h.run.search.Paired) {r : Run α σ n p}
    (hr : s.followed h = (r, .again)) (hkept : ¬s.Retreats h) : r.search.Paired := by
  have halone := s.judged_alone hh hpaired
  have hmodel : (s.tried h).search.iterate.model = h.run.search.iterate.model := by
    rw [tried_eq]
  rcases s.followed_again h hr with ⟨hv, rfl⟩ | ⟨hv, rfl⟩ | ⟨hv, -⟩
  · rw [hmodel]
    exact halone.other (s.judged_answered hh).1 hv
  · exact halone.again hv _
  · exact absurd ⟨hv, _, hr⟩ hkept

theorem passes_paired {r₀ : Run α σ n p} (hr₀ : (s.opening r₀).Timely)
    (hstart : r₀.search.verdict = .accept) {l : List (Head α σ n p)} (hl : s.Passes r₀ (h :: l))
    (hkept : ∀ q ∈ l, q.run.iterations = h.run.iterations → ¬s.Retreats q) :
    h.run.search.Paired := by
  induction hl using Passes.head_induction with
  | opened => exact s.paired_opening (.inr hstart)
  | @again h l r hl _ hr ih =>
    have hiterations : r.iterations = h.run.iterations := s.followed_iterations h hr
    have hh := s.passes_timely hr₀ hl h List.mem_cons_self
    refine s.paired_again hh (ih fun q hq heq => ?_) hr
      (hkept h List.mem_cons_self hiterations.symm)
    exact hkept q (List.mem_cons_of_mem _ hq) (heq.trans hiterations.symm)
  | next hl _ hr _ ih =>
    obtain ⟨hv, _, _, _, _, -, rfl⟩ := s.followed_accepted _ hr
    exact s.paired_opening hv

end Paired

section Ready

theorem found_isFinite {v : Vector α n} (hv : s.found h = some v) :
    Scalar.isFinite (objective v) = true := by
  unfold found at hv
  split at hv
  · split at hv
    · next hfinite =>
      obtain rfl := Option.some.inj hv
      exact hfinite
    · cases hv
  · cases hv

theorem numeric_opening {r : Run α σ n p} (hf : Scalar.isFinite r.search.iterate.f = true)
    (hbest : Scalar.isFinite r.search.record.bestF = true) :
    (s.opening r).run.search.Numeric := by
  obtain ⟨_, _, _, _, _, _, -, heq⟩ := s.opening_run r
  rw [heq]
  exact ⟨hf, hf, hbest⟩

theorem scored_ready (hready : h.run.search.Ready) : (s.scored h).Ready := by
  rw [scored_eq]
  exact hready

theorem ready_opening {r : Run α σ n p} (hr : r.search.verdict = .acceptByGradient ∨
    r.search.verdict = .accept) : (s.opening r).run.search.Ready := by
  obtain ⟨_, _, _, _, _, _, hlimit, heq⟩ := s.opening_run r
  rw [heq]
  refine ⟨hlimit, ?_⟩
  dsimp only
  rcases hr with hr | hr <;> rw [hr] <;> trivial

variable [Scalar.Ordered α]

theorem scored_numeric (hh : h.run.search.Numeric) : (s.scored h).Numeric := by
  rw [scored_eq]
  refine ⟨?_, hh.start, hh.best⟩
  change Scalar.isFinite (((s.found h).map objective).getD Scalar.huge) = true
  cases hv : s.found h with
  | none => exact Scalar.Ordered.isFinite_huge
  | some v => exact s.found_isFinite hv

theorem judged_numeric (hh : h.run.search.Numeric) : (s.judged h).search.Numeric := by
  have hassess := (s.scored_numeric hh).assess (c := s.config)
  obtain ⟨search, memory, hjudged, hcase⟩ := s.judged_eq h
  rw [hjudged]
  rcases hcase with ⟨-, rfl, -⟩ | ⟨-, t, rfl, -⟩
  · exact hassess
  · have hprobe : Search.Numeric { assess s.config (s.scored h) with trial := t } :=
      ⟨hassess.trial, hassess.start, hassess.best⟩
    exact hprobe.assess

theorem passes_numeric {r₀ : Run α σ n p} (hr₀ : (s.opening r₀).run.search.Numeric)
    {l : List (Head α σ n p)} (hl : s.Passes r₀ l) : ∀ h ∈ l, h.run.search.Numeric := by
  refine s.passes_invariant hl hr₀ ?again ?next
  case again =>
    intro h _ r _ _ hh _ hr
    have hnumeric := s.judged_numeric hh
    rcases s.followed_again h hr with ⟨-, rfl⟩ | ⟨-, rfl⟩ | ⟨-, e, a, -, rfl⟩
    · exact ⟨hnumeric.trial, hnumeric.start, hnumeric.best⟩
    · exact ⟨hnumeric.trial, hnumeric.start, hnumeric.best⟩
    · exact ⟨hnumeric.start, hnumeric.start, hnumeric.best⟩
  case next =>
    intro h _ r _ _ hh _ hr
    have hnumeric := s.judged_numeric hh
    obtain ⟨-, _, _, _, _, -, rfl⟩ := s.followed_accepted h hr
    exact s.numeric_opening hnumeric.trial hnumeric.best

theorem judged_judged_of_known (hh : h.run.search.Numeric) (hready : h.run.search.Ready)
    (hknown : ¬s.Forgets h) : (s.scored h).Judged s.config (s.judged h).search := by
  have hassessed := assess_assessed (c := s.config) (s.scored_ready hready)
    (s.scored_numeric hh).comparable
  obtain ⟨search, memory, hjudged, hcase⟩ := s.judged_eq h
  rw [hjudged]
  rcases hcase with ⟨hv, rfl, -⟩ | ⟨hv, t, rfl, -⟩
  · exact hassessed.judged hv
  · exact hassessed.judged_probe hv hknown t

theorem ready_again (hh : h.run.search.Numeric) (hready : h.run.search.Ready)
    (hknown : ¬s.Forgets h) {r : Run α σ n p} (hr : s.followed h = (r, .again)) :
    r.search.Ready := by
  have hjudged := s.judged_judged_of_known hh hready hknown
  have hscored := s.scored_ready hready
  rcases s.followed_again h hr with ⟨hv, rfl⟩ | ⟨hv, rfl⟩ | ⟨-, e, a, -, rfl⟩
  · exact hjudged.ready_other hv
  · exact hjudged.ready_again hscored hv _
  · refine ⟨?_, trivial⟩
    change (s.judged h).search.iterate.stageLimit = 1 ∨ (s.judged h).search.iterate.stageLimit = 2
    rw [hjudged.stageLimit_eq]
    exact hscored.1

theorem passes_ready {r₀ : Run α σ n p} (hr₀ : (s.opening r₀).run.search.Numeric)
    (hstart : r₀.search.verdict = .accept) {l : List (Head α σ n p)} (hl : s.Passes r₀ (h :: l))
    (hknown : ∀ q ∈ l, q.run.iterations = h.run.iterations → ¬s.Forgets q) :
    h.run.search.Ready := by
  induction hl using Passes.head_induction with
  | opened => exact s.ready_opening (.inr hstart)
  | @again h l r hl _ hr ih =>
    have hiterations : r.iterations = h.run.iterations := s.followed_iterations h hr
    have hh := s.passes_numeric hr₀ hl h List.mem_cons_self
    refine s.ready_again hh (ih fun q hq heq => ?_)
      (hknown h List.mem_cons_self hiterations.symm) hr
    exact hknown q (List.mem_cons_of_mem _ hq) (heq.trans hiterations.symm)
  | next hl _ hr _ ih =>
    obtain ⟨hv, _, _, _, _, -, rfl⟩ := s.followed_accepted _ hr
    exact s.ready_opening hv

theorem passes_model_ne {r₀ : Run α σ n p} (htimely : (s.opening r₀).Timely)
    (hnumeric : (s.opening r₀).run.search.Numeric) (hstart : r₀.search.verdict = .accept)
    {l : List (Head α σ n p)} (hl : s.Passes r₀ (h :: l))
    (hkept : (∀ q ∈ l, q.run.iterations = h.run.iterations → ¬s.Retreats q) ∨
      ∀ q ∈ l, q.run.iterations = h.run.iterations → ¬s.Forgets q)
    (hv : (s.scored h).verdict = .otherOrShorter ∨ (s.scored h).verdict = .otherOrAccept) :
    (s.scored h).iterate.model ≠ (s.scored h).record.bestModel := by
  rw [scored_eq] at hv ⊢
  change h.run.search.verdict = _ ∨ h.run.search.verdict = _ at hv
  change h.run.search.iterate.model ≠ h.run.search.record.bestModel
  rcases hkept with hkept | hknown
  · have hpaired := s.passes_paired htimely hstart hl hkept
    unfold Search.Paired at hpaired
    rcases hv with hv | hv <;> rw [hv] at hpaired <;> exact hpaired
  · have hentry := (s.passes_ready hnumeric hstart hl hknown).2
    rcases hv with hv | hv <;> rw [hv] at hentry <;> exact hentry.2.2

end Ready

end Setup

theorem Begun.numeric [Scalar.Ordered α] {P : Problem α σ p} {initial : Vector α p}
    {lower upper : Option (Array (Scalar.Side α))} {c : Config α} {state : σ} {s : Setup α σ p}
    {r₀ : Run α σ n p} (h : Begun P initial lower upper c state s r₀) :
    (s.opening r₀).run.search.Numeric := by
  obtain ⟨e, l, state', -, hfirst, rfl⟩ := h.first
  have hfinite := (firstPoint_spec hfirst).2.2.2
  exact s.numeric_opening hfinite Scalar.Ordered.isFinite_zero

theorem converged?_eq_ofCode? (small relative : Bool) (h : small = true ∨ relative = true) :
    Verdict.ofCode? (small.toNat + 2 * relative.toNat + 6) = Verdict.converged? small relative ∧
      (Verdict.converged? small relative).isSome := by
  revert h
  cases small <;> cases relative <;> decide

/-- No fit ends for bad input, and every trial of one is assessed with numbers that are finite and
a code that is expected there. The other model is not that of the best step, unless a step of the
iteration was taken back and a false convergence of it forgotten. -/
theorem fit_protocol [Scalar.Ordered α] {P : Problem α σ p} {initial : Vector α p}
    {lower upper : Option (Array (Scalar.Side α))} {c : Config α} {state : σ} {report : Report α p}
    (h : (fit P initial lower upper c state).1 = .ok report) :
    report.outcome ≠ .badInput ∧
    (∀ small relative : Bool, small = true ∨ relative = true →
      Verdict.ofCode? (small.toNat + 2 * relative.toNat + 6) = Verdict.converged? small relative ∧
        (Verdict.converged? small relative).isSome) ∧
    ∃ (n : Nat) (s : Setup α σ p) (r₀ : Run α σ n p) (l : List (Head α σ n p))
      (r : Run α σ n p) (o : Outcome), Begun P initial lower upper c state s r₀ ∧
        s.Ran r₀ l r o ∧ report = (s.finish r o).1 ∧
        ∀ q l', q :: l' <:+ l → (s.scored q).Numeric ∧ s.Protocol q ∧
          ((s.scored q).verdict = .otherOrShorter ∨ (s.scored q).verdict = .otherOrAccept →
            (∀ q' ∈ l', q'.run.iterations = q.run.iterations → ¬s.Retreats q') ∨
              (∀ q' ∈ l', q'.run.iterations = q.run.iterations → ¬s.Forgets q') →
            (s.scored q).iterate.model ≠ (s.scored q).record.bestModel) := by
  obtain ⟨n, s, r₀, l, r, o, hbegun, ⟨hl, q, hq, hend⟩, rfl⟩ := fit_ran h
  obtain ⟨hstart, htimely⟩ := hbegun.timely
  have hnumeric := hbegun.numeric
  have hall := s.passes_timely htimely hl
  have hlast : o ≠ .badInput := s.ends_outcome (hall q (List.mem_of_mem_head? hq)) hend
  refine ⟨hlast, converged?_eq_ofCode?, n, s, r₀, l, r, o, hbegun, ⟨hl, q, hq, hend⟩, rfl, ?_⟩
  intro q l' hsuffix
  have hmem : q ∈ l := hsuffix.subset List.mem_cons_self
  refine ⟨s.scored_numeric (s.passes_numeric hnumeric hl q hmem), s.protocol (hall q hmem),
    fun hv hkept => ?_⟩
  exact s.passes_model_ne htimely hnumeric hstart (s.passes_suffix hl hsuffix) hkept hv

theorem fit_protocol_unsteady : ∃ report,
    (fit Unsteady.problem #v[0] none none Unsteady.config 0).1 = .ok report ∧
    report.outcome ≠ .badInput ∧
    (∀ small relative : Bool, small = true ∨ relative = true →
      Verdict.ofCode? (small.toNat + 2 * relative.toNat + 6) = Verdict.converged? small relative ∧
        (Verdict.converged? small relative).isSome) ∧
    ∃ (n : Nat) (s : Setup Float Nat 1) (r₀ : Run Float Nat n 1) (l : List (Head Float Nat n 1))
      (r : Run Float Nat n 1) (o : Outcome),
        Begun Unsteady.problem #v[0] none none Unsteady.config 0 s r₀ ∧
        s.Ran r₀ l r o ∧ report = (s.finish r o).1 ∧
        ∀ q l', q :: l' <:+ l → (s.scored q).Numeric ∧ s.Protocol q ∧
          ((s.scored q).verdict = .otherOrShorter ∨ (s.scored q).verdict = .otherOrAccept →
            (∀ q' ∈ l', q'.run.iterations = q.run.iterations → ¬s.Retreats q') ∨
              (∀ q' ∈ l', q'.run.iterations = q.run.iterations → ¬s.Forgets q') →
            (s.scored q).iterate.model ≠ (s.scored q).record.bestModel) :=
  ⟨_, Unsteady.begun.fit_eq, fit_protocol Unsteady.begun.fit_eq⟩

/-- A step that was taken back, and a false convergence forgotten after it, leave the other model
with a best step of its own. -/
theorem fit_retries_best :
    ∃ (s : Setup Float Nat 1) (r₀ : Run Float Nat 2 1) (l : List (Head Float Nat 2 1))
      (r : Run Float Nat 2 1) (o : Outcome),
      Begun Unsteady.problem #v[0] none none Unsteady.config 0 s r₀ ∧ s.Ran r₀ l r o ∧
      ∃ q ∈ l, s.Continues q ∧ (s.scored q).Numeric ∧
        (s.scored q).verdict = .otherOrShorter ∧
        (s.scored q).iterate.model = (s.scored q).record.bestModel := by
  refine ⟨Unsteady.setup, Unsteady.start, _, _, _, Unsteady.begun, Unsteady.ran, Unsteady.fifth,
    List.mem_cons_self, ?_, ?_, Unsteady.followed_trials.2.2.2.2.2⟩
  · exact Unsteady.continues_of_passes Unsteady.passes (by decide)
  · exact Unsteady.setup.scored_numeric (Unsteady.setup.passes_numeric Unsteady.begun.numeric
      Unsteady.passes _ List.mem_cons_self)

end LeastSquares
