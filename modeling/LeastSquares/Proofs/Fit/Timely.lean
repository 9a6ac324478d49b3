import LeastSquares.Proofs.Assess.Protocol
import LeastSquares.Proofs.Fit.Begun

namespace LeastSquares

variable {α σ : Type} {n p : Nat} [Geometry α]

/-- A trial is assessed as the last verdict asked for it. -/
structure Head.Timely (h : Head α σ n p) : Prop where
  search : h.run.search.Timely
  entered : h.run.search.verdict.code ≤ 5

namespace Setup

variable (s : Setup α σ p) {h : Head α σ n p}

section

variable (hh : h.Timely)
include hh

theorem scored_timely : (s.scored h).Timely := by
  rw [scored_eq]
  exact ⟨hh.search.limit, hh.search.resume, hh.search.entry⟩

theorem assess_answered : (assess s.config (s.scored h)).Answered := (s.scored_timely hh).answered

theorem judged_answered : (s.judged h).search.Answered ∧ (s.judged h).search.verdict ≠ .probe := by
  obtain ⟨search, memory, hjudged, hcase⟩ := s.judged_eq h
  rw [hjudged]
  rcases hcase with ⟨hv, rfl, -⟩ | ⟨hv, t, rfl, -⟩
  · exact ⟨s.assess_answered hh, hv⟩
  · have htimely := (s.assess_answered hh).probe hv t
    refine ⟨htimely.answered, fun hprobe => ?_⟩
    rcases htimely.probe_answer (c := s.config) hv with hcode | hsingular | hfalse
    · change (assess s.config _).verdict = .probe at hprobe
      rw [hprobe] at hcode
      exact absurd hcode (by decide)
    · cases hsingular.symm.trans hprobe
    · cases hfalse.symm.trans hprobe

end

theorem timely_opening {r : Run α σ n p}
    (hr : r.search.verdict = .acceptByGradient ∨ r.search.verdict = .accept)
    (hresume : r.search.record.resume.code ≤ 5) : (s.opening r).Timely := by
  obtain ⟨_, _, _, _, _, _, hlimit, heq⟩ := s.opening_run r
  refine ⟨?_, ?_⟩ <;> rw [heq]
  · refine ⟨hlimit, hresume, ?_⟩
    dsimp only
    rcases hr with hr | hr <;> rw [hr] <;> trivial
  · dsimp only
    rcases hr with hr | hr <;> rw [hr] <;> decide

theorem timely_again (hh : h.Timely) {r : Run α σ n p} (hr : s.followed h = (r, .again)) :
    Head.Timely ⟨h.gradient, h.normal, r⟩ := by
  have hanswered := (s.judged_answered hh).1
  rcases s.followed_again h hr with ⟨hv, rfl⟩ | ⟨hv, rfl⟩ | ⟨-, e, a, -, rfl⟩
  · refine ⟨hanswered.other hv _, ?_⟩
    change (s.judged h).search.verdict.code ≤ 5
    rcases hv with hv | hv <;> rw [hv] <;> decide
  · refine ⟨hanswered.again hv _, ?_⟩
    change (s.judged h).search.verdict.code ≤ 5
    rw [hv]
    decide
  · have haccept : Verdict.accept.code ≤ 5 := by decide
    exact ⟨⟨hanswered.limit, hanswered.resume, trivial⟩, haccept⟩

theorem passes_timely {r₀ : Run α σ n p} (hr₀ : (s.opening r₀).Timely)
    {l : List (Head α σ n p)} (hl : s.Passes r₀ l) : ∀ h ∈ l, h.Timely := by
  refine s.passes_invariant hl hr₀ ?again ?next
  case again =>
    intro h _ r _ _ hh _ hr
    exact s.timely_again hh hr
  case next =>
    intro h _ r _ _ hh _ hr
    have hanswered := (s.judged_answered hh).1
    obtain ⟨hv, _, _, _, _, -, rfl⟩ := s.followed_accepted h hr
    exact s.timely_opening hv hanswered.resume

theorem finished_outcome (hh : h.Timely) {r : Run α σ n p} {o : Outcome}
    (hr : s.followed h = (r, .finished o)) :
    o = .userStop ∨ (s.judged h).search.verdict.outcome? = some o ∧ o ≠ .badInput := by
  obtain ⟨hanswered, hprobe⟩ := s.judged_answered hh
  have hcode := hanswered.code_le
  rcases s.followed_finished h hr with ⟨-, ho⟩ | ⟨hlarge, -, rfl⟩
  · exact .inl ho
  · right
    cases hv : (s.judged h).search.verdict <;> rw [hv] at hcode hprobe hlarge
    case badInput => exact absurd hcode (by decide)
    case probe => exact absurd rfl hprobe
    case otherOrShorter | otherOrAccept | acceptByGradient | accept | recompute =>
      exact absurd hlarge (by decide)
    all_goals exact ⟨rfl, by decide⟩

theorem ends_outcome (hh : h.Timely) {r : Run α σ n p} {o : Outcome} (hend : s.Ends h r o) :
    o ≠ .badInput := by
  cases hend with
  | limit | exhausted => exact nofun
  | finished _ hr =>
    rcases s.finished_outcome hh hr with ho | ⟨-, ho⟩
    · rw [ho]
      exact nofun
    · exact ho

/-- The assessments of one trial keep to the protocol. -/
structure Protocol (h : Head α σ n p) : Prop where
  entered : (s.scored h).verdict.code ≤ 5
  served : (s.scored h).Served s.config
  single : (assess s.config (s.scored h)).verdict ≠ .probe →
    (s.judged h).search = assess s.config (s.scored h)
  /-- A probe is judged next, and that is the last assessment of the trial. -/
  probed : (assess s.config (s.scored h)).verdict = .probe → ∃ t,
    Search.Served s.config { assess s.config (s.scored h) with trial := t } ∧
    (s.judged h).search = assess s.config { assess s.config (s.scored h) with trial := t } ∧
    ((s.judged h).search.verdict.code ≤ 5 ∨ (s.judged h).search.verdict = .singularConverged ∨
      (s.judged h).search.verdict = .falseConverged)
  /-- Nothing is evaluated between the trial and what follows from it. -/
  account : (s.judged h).account = (s.evaluated h).account
  answered : (s.judged h).search.verdict ≠ .probe ∧ (s.judged h).search.verdict ≠ .badInput
  finished : ∀ r o, s.followed h = (r, .finished o) →
    o = .userStop ∨ (s.judged h).search.verdict.outcome? = some o ∧ o ≠ .badInput

theorem protocol (hh : h.Timely) : s.Protocol h := by
  obtain ⟨hanswered, hprobe⟩ := s.judged_answered hh
  have hscored := s.scored_timely hh
  have hentered : (s.scored h).verdict.code ≤ 5 := by
    rw [scored_eq]
    exact hh.entered
  refine ⟨hentered, hscored.served, s.judged_search h, fun hv => ?_, ?_, ⟨hprobe, fun hbad => ?_⟩,
    fun r o hr => s.finished_outcome hh hr⟩
  · obtain ⟨search, memory, hjudged, ⟨hnot, -⟩ | ⟨-, t, hsearch, -⟩⟩ := s.judged_eq h
    · exact absurd hv hnot
    · have htimely := (s.assess_answered hh).probe hv t
      rw [hjudged]
      refine ⟨t, htimely.served, hsearch, ?_⟩
      dsimp only
      rw [hsearch]
      exact htimely.probe_answer hv
  · exact s.account_judge _ _ _
  · have hcode := hanswered.code_le
    rw [hbad] at hcode
    exact absurd hcode (by decide)

end Setup

theorem Begun.timely {P : Problem α σ p} {initial : Vector α p}
    {lower upper : Option (Array (Scalar.Side α))} {c : Config α} {state : σ}
    {s : Setup α σ p} {r₀ : Run α σ n p}
    (h : Begun P initial lower upper c state s r₀) :
    r₀.search.verdict = .accept ∧ (s.opening r₀).Timely := by
  obtain ⟨e, l, state', -, -, rfl⟩ := h.first
  have hresume : Verdict.accept.code ≤ 5 := by decide
  exact ⟨rfl, s.timely_opening (.inr rfl) hresume⟩

end LeastSquares
