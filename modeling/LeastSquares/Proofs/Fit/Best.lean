import LeastSquares.Proofs.Fit.Known

namespace LeastSquares

variable {σ : Type} {n p : Nat}

theorem Search.Ready.lowest {e : Search ℝ p} (he : e.Ready) {low : ℝ}
    (hv : e.verdict = .otherOrShorter ∨ e.verdict = .otherOrAccept ∨ e.verdict = .recompute)
    (h : low = min e.iterate.f₀ e.record.bestF) : e.Lowest low := by
  refine ⟨fun hopens => ?_, fun _ => h⟩
  rcases hopens with hopens | hopens | ⟨hrecompute, hstage, hresume⟩
  · rw [hopens] at hv
    exact absurd hv (by decide)
  · rw [hopens] at hv
    exact absurd hv (by decide)
  · have hretries := he.2
    rw [hrecompute] at hretries
    have hbestF : e.record.bestF = e.iterate.f₀ := by
      rcases hretries with ⟨hpos, -⟩ | ⟨-, ⟨hnot, -⟩ | ⟨-, hbestF⟩⟩ | ⟨hnot, -⟩ | ⟨hnot, -⟩
      · rw [hstage] at hpos
        exact absurd hpos (by decide)
      · rw [hnot] at hresume
        exact absurd hresume (by decide)
      · exact hbestF
      · exact absurd (hstage.symm.trans hnot) (by decide)
      · exact absurd (hstage.symm.trans hnot) (by decide)
    rw [h, hbestF, min_self]

/-- The earlier of two trials is of the same iteration, or of one that began higher. -/
def Head.Descends (h h' : Head ℝ σ n p) : Prop :=
  h.run.iterations = h'.run.iterations ∧
      h.run.search.iterate.f₀ = h'.run.search.iterate.f₀ ∨
    h'.run.iterations < h.run.iterations ∧
      h.run.search.iterate.f₀ < h'.run.search.iterate.f₀

theorem Head.Descends.trans {h₁ h₂ h₃ : Head ℝ σ n p} (h : h₁.Descends h₂)
    (h' : h₂.Descends h₃) : h₁.Descends h₃ := by
  rcases h with ⟨hsame, hf⟩ | ⟨hlater, hf⟩
  · rw [Descends, hsame, hf]
    exact h'
  · rcases h' with ⟨hsame', hf'⟩ | ⟨hlater', hf'⟩
    · rw [hsame'] at hlater
      rw [hf'] at hf
      exact .inr ⟨hlater, hf⟩
    · exact .inr ⟨hlater'.trans hlater, hf.trans hf'⟩

theorem Head.Descends.pairwise_cons {q h : Head ℝ σ n p} {l : List (Head ℝ σ n p)}
    (hlast : q.Descends h) (hpairs : (h :: l).Pairwise Head.Descends) :
    (q :: h :: l).Pairwise Head.Descends := by
  refine List.pairwise_cons.mpr ⟨fun q' hq' => ?_, hpairs⟩
  rcases List.mem_cons.mp hq' with rfl | hq'
  · exact hlast
  · exact hlast.trans (List.rel_of_pairwise_cons hpairs hq')

namespace Setup

variable (s : Setup ℝ σ p) (h : Head ℝ σ n p)

/-- The step of this trial, or the one put back in its place, is accepted. -/
def Succeeds : Prop :=
  (s.judged h).search.verdict = .acceptByGradient ∨ (s.judged h).search.verdict = .accept

/-- The step is accepted, but there is no Jacobian where it leads. -/
def Loses : Prop :=
  s.Succeeds h ∧ ∃ e, (s.problem.countedLinearization n (s.judged h).search.iterate.x
    (s.judged h).account).1 = .error e

/-- The objectives of a run, at its start and at the trials that could be evaluated. -/
def values (r₀ : Run ℝ σ n p) (l : List (Head ℝ σ n p)) : Set ℝ :=
  {f | f = objective r₀.base.residuals ∨ ∃ h ∈ l, s.Continues h ∧ s.value h = some f}

variable {h} {R : Vector ℝ p → Array ℝ} {r₀ : Run ℝ σ n p} {l : List (Head ℝ σ n p)}

theorem followed_best {r : Run ℝ σ n p} {next : Next} (hr : s.followed h = (r, next)) :
    r.best = (s.judged h).best := by
  have hstep := s.followed_step h
  rw [hr] at hstep
  cases hstep with
  | passed hr =>
    obtain ⟨-, _, _, _, _, -, rfl⟩ := hr
    rfl
  | stopped hr =>
    obtain ⟨-, _, _, _, _, -, rfl⟩ := hr
    rfl
  | _ => rfl

theorem opening_best (r : Run ℝ σ n p) : (s.opening r).run.best = r.best := by
  obtain ⟨_, _, _, _, _, _, -, heq⟩ := s.opening_run r
  rw [heq]

theorem lowered_of_value {f : ℝ} (hf : s.value h = some f) (low : ℝ) :
    (s.scored h).lowered low = min low f := by
  obtain ⟨v, hv, rfl⟩ := Option.map_eq_some_iff.mp hf
  rw [scored_eq, value, hv]
  rfl

theorem lowered_of_no_value (hf : s.value h = none) (low : ℝ) :
    (s.scored h).lowered low = low := by
  have hv : s.found h = none := Option.map_eq_none_iff.mp hf
  rw [scored_eq, value, hv]
  rfl

theorem least_cons (hcontinues : s.Continues h)
    (hleast : IsLeast (s.values r₀ l) h.run.best.f) :
    IsLeast (s.values r₀ (h :: l)) (s.judged h).best.f := by
  obtain ⟨hmem, hlower⟩ := hleast
  have hold {f : ℝ} (hf : f ∈ s.values r₀ l) : f ∈ s.values r₀ (h :: l) := by
    rcases hf with hf | ⟨q, hq, hf⟩
    · exact .inl hf
    · exact .inr ⟨q, List.mem_cons_of_mem _ hq, hf⟩
  rw [judged_best_f]
  cases hf : s.value h with
  | none =>
    rw [s.lowered_of_no_value hf]
    refine ⟨hold hmem, fun f' hf' => ?_⟩
    rcases hf' with hf' | ⟨q, hq, hcontinues', hf'⟩
    · exact hlower (.inl hf')
    · rcases List.mem_cons.mp hq with rfl | hq
      · rw [hf] at hf'
        cases hf'
      · exact hlower (.inr ⟨q, hq, hcontinues', hf'⟩)
  | some f =>
    rw [s.lowered_of_value hf]
    constructor
    · rcases min_choice h.run.best.f f with hmin | hmin
      · rw [hmin]
        exact hold hmem
      · rw [hmin]
        exact .inr ⟨h, List.mem_cons_self, hcontinues, hf⟩
    · intro f' hf'
      rcases hf' with hf' | ⟨q, hq, hcontinues', hf'⟩
      · exact (min_le_left _ _).trans (hlower (.inl hf'))
      · rcases List.mem_cons.mp hq with rfl | hq
        · obtain rfl := Option.some.inj (hf.symm.trans hf')
          exact min_le_right _ _
        · exact (min_le_left _ _).trans (hlower (.inr ⟨q, hq, hcontinues', hf'⟩))

theorem passes_least (hr₀ : r₀.best.f = objective r₀.base.residuals) (hl : s.Passes r₀ (h :: l)) :
    IsLeast (s.values r₀ l) h.run.best.f := by
  induction hl using Passes.head_induction with
  | opened =>
    rw [opening_best, hr₀]
    refine ⟨.inl rfl, fun f hf => ?_⟩
    rcases hf with hf | ⟨q, hq, -⟩
    · exact hf.ge
    · exact absurd hq List.not_mem_nil
  | again _ hcontinues hr ih =>
    rw [s.followed_best hr]
    exact s.least_cons hcontinues ih
  | next _ hcontinues hr _ ih =>
    rw [opening_best, s.followed_best hr]
    exact s.least_cons hcontinues ih

theorem scored_lowest {low : ℝ} (hlow : h.run.search.Lowest low) :
    (s.scored h).Lowest low := by
  rw [scored_eq]
  exact ⟨hlow.opens, hlow.later⟩

theorem lowest_opening {r : Run ℝ σ n p} (hr : r.best.f = r.search.iterate.f)
    (hv : r.search.verdict = .acceptByGradient ∨ r.search.verdict = .accept) :
    (s.opening r).run.search.Lowest (s.opening r).run.best.f := by
  obtain ⟨_, _, _, _, _, _, -, heq⟩ := s.opening_run r
  rw [heq]
  exact ⟨fun _ => hr, fun hopens => absurd (hv.imp_right .inl) hopens⟩

section

variable (hloss : stretchLoss s.config ≤ 1)
include hloss

theorem lowest_again (hs : h.Steady) (hh : h.Known R)
    (hlow : h.run.search.Lowest h.run.best.f) {r : Run ℝ σ n p}
    (hr : s.followed h = (r, .again)) (hkeeps : ¬s.Loses h) : r.search.Lowest r.best.f := by
  have hjudged := (s.judged_judged hs).1
  have hready := (s.steady_again hs hr).search.ready
  have hmin (hv : (s.judged h).search.verdict = .otherOrShorter ∨
      (s.judged h).search.verdict = .otherOrAccept ∨ (s.judged h).search.verdict = .recompute) :
      (s.scored h).lowered h.run.best.f =
        min (s.judged h).search.iterate.f₀ (s.judged h).search.record.bestF := by
    rw [hjudged.f₀_eq]
    exact (hjudged.retried (s.scored_backed hloss hs hh) hv).2 _ (s.scored_lowest hlow)
  rw [s.followed_best hr, judged_best_f]
  rcases s.followed_again h hr with ⟨hv, rfl⟩ | ⟨hv, rfl⟩ | ⟨hv, e, a, hj, -⟩
  · have hv : (s.judged h).search.verdict = .otherOrShorter ∨
        (s.judged h).search.verdict = .otherOrAccept ∨
        (s.judged h).search.verdict = .recompute := hv.imp_right .inl
    exact hready.lowest hv (hmin hv)
  · exact hready.lowest (.inr (.inr hv)) (hmin (.inr (.inr hv)))
  · exact absurd ⟨hv, e, congrArg Prod.fst hj⟩ hkeeps

variable (hc : 0 ≤ s.config.tuner2)
include hc

theorem succeeds_lt (hs : h.Steady) (hh : h.Known R) (hv : s.Succeeds h) :
    (s.judged h).search.iterate.f < h.run.search.iterate.f₀ := by
  have hgain := ((s.judged_judged hs).1.accepted hc (s.scored_backed hloss hs hh) hv).1
  rw [scored_eq] at hgain
  exact hgain

theorem lowest_next (hs : h.Steady) (hh : h.Known R)
    (hlow : h.run.search.Lowest h.run.best.f) {r : Run ℝ σ n p} (hr : s.Passed h r) :
    (s.judged h).best.f = r.search.iterate.f := by
  obtain ⟨hv, _, _, _, _, -, rfl⟩ := hr
  rw [judged_best_f]
  exact ((s.judged_judged hs).1.accepted hc (s.scored_backed hloss hs hh) hv).2.2 _
    (s.scored_lowest hlow)

variable (hP : s.problem.Answers R)
include hP

theorem passes_descend (hr₀ : r₀.Settled R) (hstart : r₀.search.verdict = .accept)
    (hl : s.Passes r₀ l) : l.Pairwise Head.Descends := by
  have hknown := s.passes_known hP hloss hc hr₀ hstart hl
  -- The latest trial comes first. A retry starts from where the last trial did, a new iteration
  -- lower.
  induction hl with
  | opened => exact List.pairwise_singleton _ _
  | @again h l r hl _ hr ih =>
    have htail := fun q hq => hknown q (List.mem_cons_of_mem _ hq)
    have hpairs := ih htail
    obtain ⟨hs, hh⟩ := htail h List.mem_cons_self
    have hlast : Head.Descends ⟨h.gradient, h.normal, r⟩ h := by
      refine .inl ⟨s.followed_iterations _ hr, ?_⟩
      have hknown' := s.known_again hP hloss hs hh hr
      rw [← hknown'.start, ← hh.start]
      congr 2
      obtain ⟨_, _, _, _, _, _, _, rfl⟩ := s.again_eq h hr
      exact s.judged_base h
    exact hlast.pairwise_cons hpairs
  | @next h l r hl _ hr _ ih =>
    have htail := fun q hq => hknown q (List.mem_cons_of_mem _ hq)
    have hpairs := ih htail
    obtain ⟨hs, hh⟩ := htail h List.mem_cons_self
    have hlast : Head.Descends (s.opening r) h := by
      have hgain := (s.passed_settled hP hloss hs hh hc (s.followed_accepted _ hr)).2
      obtain ⟨_, _, _, _, _, _, -, hopening⟩ := s.opening_run r
      refine .inr ⟨?_, ?_⟩
      · rw [opening_iterations, s.followed_iterations _ hr]
        exact Nat.lt_succ_self _
      · rw [hopening]
        exact hgain
    exact hlast.pairwise_cons hpairs

/-- Until a point is lost for want of a Jacobian, the iterate and the best step of the
iteration hold the least value of the run between them. -/
theorem passes_lowest (hr₀ : r₀.Settled R) (hstart : r₀.search.verdict = .accept)
    (hbest : r₀.best.f = objective r₀.base.residuals) (hl : s.Passes r₀ (h :: l))
    (hkeeps : ∀ q ∈ l, ¬s.Loses q) : h.run.search.Lowest h.run.best.f := by
  have hknown := s.passes_known hP hloss hc hr₀ hstart hl
  induction hl using Passes.head_induction with
  | opened => exact s.lowest_opening (hbest.trans hr₀.start) (.inr hstart)
  | @again q l r _ _ hr ih =>
    obtain ⟨hs, hh⟩ := hknown q (List.mem_cons_of_mem _ List.mem_cons_self)
    have hlow := ih (fun q hq => hkeeps q (List.mem_cons_of_mem _ hq))
      (fun q hq => hknown q (List.mem_cons_of_mem _ hq))
    exact s.lowest_again hloss hs hh hlow hr (hkeeps q List.mem_cons_self)
  | @next q l r _ _ hr _ ih =>
    obtain ⟨hs, hh⟩ := hknown q (List.mem_cons_of_mem _ List.mem_cons_self)
    have hlow := ih (fun q hq => hkeeps q (List.mem_cons_of_mem _ hq))
      (fun q hq => hknown q (List.mem_cons_of_mem _ hq))
    have hpassed := s.followed_accepted _ hr
    have hbest := s.lowest_next hloss hc hs hh hlow hpassed
    rw [← s.followed_best hr] at hbest
    obtain ⟨hv, _, _, _, _, -, rfl⟩ := hpassed
    exact s.lowest_opening hbest hv

end

end Setup

end LeastSquares
