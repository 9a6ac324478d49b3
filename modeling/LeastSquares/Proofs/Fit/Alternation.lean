import LeastSquares.Proofs.Assess.Span
import LeastSquares.Proofs.Fit.Budget

namespace LeastSquares

variable {α σ : Type} {n p : Nat}

/-- In the first iteration one model may be tried, and two in every other. -/
structure Head.Allotted (h : Head α σ n p) : Prop where
  begun : 1 ≤ h.run.iterations
  stageLimit : h.run.search.iterate.stageLimit = if h.run.iterations = 1 then 1 else 2

variable [Geometry α]

namespace Setup

variable (s : Setup α σ p) (h : Head α σ n p)

/-- What is assessed of a trial, the latest first: the trial itself, and then the probe that
its verdict asks for. -/
def assessed : List (Search α p) :=
  let e := assess s.config (s.scored h)
  if e.verdict = .probe then
    [{ e with trial := (trustStep s.config ((s.tried h).hessian h.normal) h.gradient e.iterate.d
        s.config.initialTrustRadius (s.evaluated h).memory).1 }, s.scored h]
  else [s.scored h]

theorem assessed_eq : ∃ e l, s.assessed h = e :: l ∧ (s.judged h).search = assess s.config e ∧
    (s.assessed h).getLast? = some (s.scored h) := by
  obtain ⟨search, memory, hjudged, hcase⟩ := s.judged_eq h
  rw [hjudged]
  unfold assessed
  rcases hcase with ⟨hv, rfl, -⟩ | ⟨hv, t, rfl, ht⟩
  · dsimp only
    rw [if_neg hv]
    exact ⟨_, _, rfl, rfl, rfl⟩
  · dsimp only
    rw [if_pos hv, ← ht]
    exact ⟨_, _, rfl, rfl, rfl⟩

variable {h}

theorem assessed_timely (hh : h.Timely) : ∀ e ∈ s.assessed h, e.Timely := by
  have hscored := s.scored_timely hh
  unfold assessed
  dsimp only
  split
  · next hv =>
    exact List.forall_mem_cons.mpr ⟨(s.assess_answered hh).probe hv _,
      List.forall_mem_singleton.mpr hscored⟩
  · exact List.forall_mem_singleton.mpr hscored

theorem assessed_stageLimit :
    ∀ e ∈ s.assessed h, e.iterate.stageLimit = h.run.search.iterate.stageLimit := by
  have hscored : (s.scored h).iterate.stageLimit = h.run.search.iterate.stageLimit := by
    rw [scored_eq]
  unfold assessed
  dsimp only
  split
  · exact List.forall_mem_cons.mpr ⟨(Search.assess_stageLimit s.config _).trans hscored,
      List.forall_mem_singleton.mpr hscored⟩
  · exact List.forall_mem_singleton.mpr hscored

theorem assessed_chain : (s.assessed h).IsChain fun s' e => e.Follows s.config s' := by
  unfold assessed
  dsimp only
  split
  · exact List.isChain_pair.mpr (.inr ⟨rfl, rfl, rfl⟩)
  · exact List.isChain_singleton _

theorem allotted_again (hh : h.Allotted) {r : Run α σ n p} (hr : s.followed h = (r, .again)) :
    Head.Allotted ⟨h.gradient, h.normal, r⟩ := by
  have hiterations : r.iterations = h.run.iterations := s.followed_iterations h hr
  have hlimit : r.search.iterate.stageLimit = h.run.search.iterate.stageLimit := by
    obtain ⟨x, f, model, oversized, hiterate⟩ := s.judged_iterate h
    have hjudged : (s.judged h).search.iterate.stageLimit = h.run.search.iterate.stageLimit := by
      rw [hiterate]
    obtain ⟨_, _, _, _, _, _, _, rfl⟩ := s.again_eq h hr
    exact hjudged
  refine ⟨hh.begun.trans_eq hiterations.symm, ?_⟩
  dsimp only
  rw [hlimit, hiterations]
  exact hh.stageLimit

theorem allotted_next (hh : h.Allotted) {r : Run α σ n p} (hr : s.followed h = (r, .accepted)) :
    (s.opening r).Allotted := by
  have hiterations : (s.opening r).run.iterations = h.run.iterations + 1 := by
    rw [opening_iterations, s.followed_iterations h hr]
  have hbegun := hh.begun
  obtain ⟨-, v, j, a, state, -, rfl⟩ := s.followed_accepted h hr
  refine ⟨by omega, ?_⟩
  rw [hiterations, if_neg (by omega)]
  obtain ⟨warnings, hopening⟩ := s.opening_next (r := { s.judged h with
    account := { a with state }
    base := ⟨(s.judged h).search.iterate.x, v, j⟩
    previous := some (s.accepted h) }) rfl
  rw [hopening]
  rfl

theorem passes_allotted {r₀ : Run α σ n p} (hprevious : r₀.previous = none)
    (hiterations : r₀.iterations = 0) {l : List (Head α σ n p)} (hl : s.Passes r₀ l) :
    ∀ h ∈ l, h.Allotted := by
  have hfirst : (s.opening r₀).run.iterations = 1 := by rw [opening_iterations, hiterations]
  refine s.passes_invariant hl ⟨hfirst.ge, ?_⟩ ?again ?next
  · obtain ⟨warnings, hopening⟩ := s.opening_first hprevious
    rw [if_pos hfirst, hopening]
    rfl
  case again =>
    intro h _ r _ _ hh _ hr
    exact s.allotted_again hh hr
  case next =>
    intro h _ r _ _ hh _ hr
    exact s.allotted_next hh hr

section

variable {h' : Head α σ n p} {l : List (Head α σ n p)}

theorem assessed_follows (hlink : (s.scored h').Begins ∨
      h'.run.search.verdict = (s.judged h).search.verdict ∧
        h'.run.search.record = (s.judged h).search.record ∧
        h'.run.search.iterate.stageLimit = (s.judged h).search.iterate.stageLimit) :
    ∀ s' ∈ (s.assessed h').getLast?, ∀ e ∈ (s.assessed h).head?, e.Follows s.config s' := by
  obtain ⟨-, -, -, -, hlast⟩ := s.assessed_eq h'
  obtain ⟨e, l', hassessed, hjudged, -⟩ := s.assessed_eq h
  rw [hlast, hassessed]
  rintro _ ⟨⟩ _ ⟨⟩
  rw [hjudged] at hlink
  exact hlink.imp_right fun hkept => by rw [scored_eq]; exact hkept

theorem assessed_ne_nil (h : Head α σ n p) : s.assessed h ≠ [] := by
  obtain ⟨e, l', hassessed, -⟩ := s.assessed_eq h
  rw [hassessed]
  exact List.cons_ne_nil _ _

theorem scored_opening {r : Run α σ n p} (hr : r.search.verdict = .acceptByGradient ∨
    r.search.verdict = .accept) : (s.scored (s.opening r)).Begins := by
  obtain ⟨_, _, _, _, _, _, -, hopening⟩ := s.opening_run r
  rw [Search.begins_iff, scored_eq, hopening]
  exact hr

theorem passes_assessed {r₀ : Run α σ n p} (hl : s.Passes r₀ l) :
    (l.flatMap s.assessed).IsChain fun s' e => e.Follows s.config s' := by
  refine s.passes_isChain hl s.assessed_ne_nil (fun _ => s.assessed_chain) ?again ?next
  case again =>
    intro h r hr
    refine s.assessed_follows ?_
    have hagain := s.followed_again h hr
    generalize s.judged h = judged at hagain ⊢
    rcases hagain with ⟨-, rfl⟩ | ⟨-, rfl⟩ | ⟨-, e, a, -, rfl⟩
    · exact .inr ⟨rfl, rfl, rfl⟩
    · exact .inr ⟨rfl, rfl, rfl⟩
    · left
      rw [scored_eq]
      rfl
  case next =>
    intro h r hr
    obtain ⟨hv, _, _, _, _, -, rfl⟩ := s.followed_accepted _ hr
    exact s.assessed_follows (.inl (s.scored_opening hv))

theorem passes_counted {r₀ : Run α σ n p} (hr₀ : (s.opening r₀).Timely)
    (hstart : r₀.search.verdict = .accept) (hl : s.Passes r₀ l) :
    ∀ e ∈ l.flatMap s.assessed, e.Counted := by
  refine Search.counted_of_chain (fun e he => ?_) (s.passes_assessed hl) fun e he => ?_
  · obtain ⟨h, hh, he⟩ := List.mem_flatMap.mp he
    exact s.assessed_timely (s.passes_timely hr₀ hl h hh) e he
  · obtain ⟨-, -, -, -, hlast⟩ := s.assessed_eq (s.opening r₀)
    rw [s.passes_getLast? hl s.assessed_ne_nil, hlast] at he
    obtain rfl := Option.some.inj he
    exact s.scored_opening (.inr hstart)

end

/-- How the models take turns while assessments follow each other without a new beginning. -/
structure Alternates (span : List (Search α p)) : Prop where
  /-- The other model is asked for no more often than there are others that may be tried. -/
  asks : ∀ e ∈ span, (span.countP (fun e => (assess s.config e).verdict.switches) : Int) + 1 ≤
    e.iterate.stageLimit.toInt
  /-- Nor does the number of models fall from one assessment to a later one. -/
  grows : span.Pairwise fun s' e => (assess s.config e).depth ≤ s'.depth
  /-- It does not fall in an assessment either, once a first move has set it where it begins. -/
  within : ∀ e ∈ span, ∀ i j, (e.Begins → 0 < i) → i ≤ j →
    e.depthAt s.config i ≤ e.depthAt s.config j
  counted : ∀ e ∈ span, 1 ≤ (assess s.config e).depth

theorem alternates {span : List (Search α p)}
    (h : Search.Span s.config span) : s.Alternates span where
  asks := h.asks_below
  grows := h.grows
  within e he _ _ hi hij := (h.counted e he).depthAt_mono hi hij
  counted e he := (h.counted e he).timely.answered.depth_pos

end Setup

variable {P : Problem α σ p} {initial : Vector α p} {lower upper : Option (Array (Scalar.Side α))}
  {c : Config α} {state : σ} {report : Report α p}

/-- The models of an iteration do not take turns for long. Between two new beginnings the other
model is asked for at most once, and never in the first iteration. -/
theorem fit_alternates (h : (fit P initial lower upper c state).1 = .ok report) :
    ∃ (n : Nat) (s : Setup α σ p) (r₀ : Run α σ n p) (l : List (Head α σ n p))
      (r : Run α σ n p) (o : Outcome), Begun P initial lower upper c state s r₀ ∧
        s.Ran r₀ l r o ∧ report = (s.finish r o).1 ∧
        (∀ h ∈ l, ∀ e ∈ s.assessed h,
          e.iterate.stageLimit = if h.run.iterations = 1 then 1 else 2) ∧
        ∀ span, span <:+: l.flatMap s.assessed → (∀ e ∈ span.dropLast, ¬e.Begins) →
          s.Alternates span := by
  obtain ⟨n, s, r₀, l, r, o, hbegun, ⟨hl, hend⟩, hreport⟩ := fit_ran h
  obtain ⟨hstart, hr₀⟩ := hbegun.timely
  obtain ⟨hprevious, hiterations⟩ : r₀.previous = none ∧ r₀.iterations = 0 := by
    obtain ⟨e, l, state', -, -, rfl⟩ := hbegun.first
    exact ⟨rfl, rfl⟩
  refine ⟨n, s, r₀, l, r, o, hbegun, ⟨hl, hend⟩, hreport, fun h hh e he => ?_,
    fun span hspan hbegins => ?_⟩
  · rw [s.assessed_stageLimit e he]
    exact (s.passes_allotted hprevious hiterations hl h hh).stageLimit
  · have hcounted := s.passes_counted hr₀ hstart hl
    have hchain := s.passes_assessed hl
    have hmem := hspan.subset
    obtain ⟨l₁, l₂, hsplit⟩ := hspan
    rw [← hsplit, List.isChain_append, List.isChain_append] at hchain
    exact s.alternates ⟨fun e he => hcounted e (hmem he), hchain.1.2.1, hbegins⟩

theorem Unsteady.asks_trials :
    (∀ e ∈ (setup.assessed third ++ setup.assessed second).dropLast,
      e.verdict.entry ≠ .beginIteration) ∧
    (setup.assessed third ++ setup.assessed second).countP
      (fun e => (assess setup.config e).verdict.switches) = 1 := by
  decide +kernel

theorem fit_alternates_unsteady : ∃ report,
    (fit Unsteady.problem #v[0] none none Unsteady.config 0).1 = .ok report ∧
    ∃ (n : Nat) (s : Setup Float Nat 1) (r₀ : Run Float Nat n 1) (l : List (Head Float Nat n 1))
      (r : Run Float Nat n 1) (o : Outcome),
        Begun Unsteady.problem #v[0] none none Unsteady.config 0 s r₀ ∧
        s.Ran r₀ l r o ∧ report = (s.finish r o).1 ∧
        (∀ h ∈ l, ∀ e ∈ s.assessed h,
          e.iterate.stageLimit = if h.run.iterations = 1 then 1 else 2) ∧
        (∀ span, span <:+: l.flatMap s.assessed → (∀ e ∈ span.dropLast, ¬e.Begins) →
          s.Alternates span) ∧
        ∃ span, span <:+: l.flatMap s.assessed ∧ (∀ e ∈ span.dropLast, ¬e.Begins) ∧
          span.countP (fun e => (assess s.config e).verdict.switches) = 1 := by
  obtain ⟨n, s, r₀, l, r, o, hbegun, hran, hreport, hlimit, halternates⟩ :=
    fit_alternates Unsteady.begun.fit_eq
  obtain ⟨rfl, rfl, rfl⟩ := hbegun.unique Unsteady.begun
  obtain ⟨rfl, -, -⟩ := hran.unique Unsteady.ran
  obtain ⟨hbegins, hasks⟩ := Unsteady.asks_trials
  refine ⟨_, Unsteady.begun.fit_eq, 2, _, _, _, r, o, hbegun, hran, hreport, hlimit, halternates, _,
    ⟨Unsteady.setup.assessed Unsteady.fifth ++ Unsteady.setup.assessed Unsteady.fourth,
      Unsteady.setup.assessed Unsteady.first, ?_⟩, hbegins, hasks⟩
  simp [List.append_assoc]

end LeastSquares
