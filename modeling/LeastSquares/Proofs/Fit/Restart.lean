import LeastSquares.Proofs.Fit.Budget
import LeastSquares.Proofs.Fit.Origin

namespace LeastSquares

structure StepCall (α : Type) (p : Nat) where
  hessian : Symmetric α p
  gradient : Vector α p
  d : Vector α p
  radius : α
  memory : StepMemory α p

namespace StepCall

variable {α : Type} {p : Nat}

/-- Two calls for the same quadratic model in the same scale. -/
structure Alike (q q' : StepCall α p) : Prop where
  hessian : q.hessian = q'.hessian
  gradient : q.gradient = q'.gradient
  d : q.d = q'.d

theorem Alike.trans {q₁ q₂ q₃ : StepCall α p} (h : q₁.Alike q₂) (h' : q₂.Alike q₃) :
    q₁.Alike q₃ :=
  ⟨h.hessian.trans h'.hessian, h.gradient.trans h'.gradient, h.d.trans h'.d⟩

def Fresh (q : StepCall α p) : Prop := q.memory.isFresh = true

variable [Geometry α]

def answer (c : Config α) (q : StepCall α p) : Trial α p × StepMemory α p :=
  trustStep c q.hessian q.gradient q.d q.radius q.memory

/-- A call starts afresh, or goes on for the same model with what the call `q'` left. -/
def Resumes (c : Config α) (q q' : StepCall α p) : Prop :=
  q.Fresh ∨ q.memory = (q'.answer c).2 ∧ q.Alike q'

/-- Where every call goes on from the one before it, a call that is not fresh is for the model
and in the scale of the latest call that was. -/
theorem latest_fresh {c : Config α} {q : StepCall α p} {l : List (StepCall α p)}
    (hl : (q :: l).IsChain (Resumes c)) (hfirst : ∀ q' ∈ (q :: l).getLast?, q'.Fresh)
    (hq : ¬q.Fresh) : ∃ q₀, Latest Fresh l q₀ ∧ q.Alike q₀ := by
  induction l generalizing q with
  | nil => exact absurd (hfirst q rfl) hq
  | cons q' l ih =>
    obtain ⟨hresumes, hl⟩ := List.isChain_cons_cons.mp hl
    have halike := (hresumes.resolve_left hq).2
    by_cases hq' : q'.Fresh
    · exact ⟨q', latest_head hq', halike⟩
    · obtain ⟨q₀, hlatest, halike'⟩ := ih hl (List.getLast?_cons_cons ▸ hfirst) hq'
      exact ⟨q₀, hlatest.cons hq', halike.trans halike'⟩

end StepCall

variable {α σ : Type} {n p : Nat} [Geometry α]

namespace Setup

variable (s : Setup α σ p) (h : Head α σ n p)

def trialCall : StepCall α p where
  hessian := h.run.hessian h.normal
  gradient := h.gradient
  d := h.run.search.iterate.d
  radius := h.run.search.iterate.radius
  memory := remembered h.run

def probeCall : StepCall α p where
  hessian := (s.tried h).hessian h.normal
  gradient := h.gradient
  d := (assess s.config (s.scored h)).iterate.d
  radius := s.config.initialTrustRadius
  memory := (s.evaluated h).memory

/-- The calls of the step solver at a trial, the latest one first. -/
def calls : List (StepCall α p) :=
  if (assess s.config (s.scored h)).verdict = .probe then [s.probeCall h, trialCall h]
  else [trialCall h]

theorem tried_answer : (s.tried h).memory = ((trialCall h).answer s.config).2 := by
  rw [tried_eq]
  rfl

theorem probeCall_handed : (s.probeCall h).memory = ((trialCall h).answer s.config).2 ∧
    (s.probeCall h).Alike (trialCall h) := by
  refine ⟨(s.evaluated_memory h).trans (s.tried_answer h), s.tried_hessian h, rfl, ?_⟩
  obtain ⟨x, f, model, hiterate⟩ := assess_iterate s.config (s.scored h)
  change (assess s.config (s.scored h)).iterate.d = h.run.search.iterate.d
  rw [hiterate, scored_eq]

theorem calls_eq : ∃ q l, s.calls h = q :: l ∧ (s.judged h).memory = (q.answer s.config).2 ∧
    q.Alike (trialCall h) ∧ (s.calls h).getLast? = some (trialCall h) := by
  obtain ⟨hmemory, halike⟩ := s.probeCall_handed h
  obtain ⟨search, memory, hjudged, hcase⟩ := s.judged_eq h
  rw [hjudged]
  unfold calls
  rcases hcase with ⟨hv, -, rfl⟩ | ⟨hv, t, -, ht⟩
  · rw [if_neg hv]
    exact ⟨_, _, rfl, hmemory, ⟨rfl, rfl, rfl⟩, rfl⟩
  · rw [if_pos hv]
    exact ⟨_, _, rfl, congrArg Prod.snd ht, halike, rfl⟩

theorem calls_chain : (s.calls h).IsChain (StepCall.Resumes s.config) := by
  unfold calls
  split
  · exact List.isChain_pair.mpr (.inr (s.probeCall_handed h))
  · exact List.isChain_singleton _

theorem trialCall_opening (r : Run α σ n p) : (trialCall (s.opening r)).Fresh := by
  obtain ⟨_, _, _, _, _, _, -, hopening⟩ := s.opening_run r
  have hremembered : remembered (s.opening r).run = r.memory.reset := by
    rw [hopening]
    exact if_neg fun h => h rfl
  change (remembered (s.opening r).run).isFresh = true
  rw [hremembered]
  rfl

variable {h}

theorem again_run {r : Run α σ n p} (hr : s.followed h = (r, .again)) :
    r.iterations = h.run.iterations ∧ r.secant = h.run.secant ∧
      r.search.iterate.d = h.run.search.iterate.d ∧ r.memory = (s.judged h).memory ∧
      r.memoryModel = h.run.search.iterate.model := by
  have hd := s.judged_scale h
  have hmodel : (s.judged h).memoryModel = h.run.search.iterate.model := by
    obtain ⟨_, _, _, _, _, _, hjudged⟩ := s.judged_run h
    rw [hjudged]
  have hiterations := s.judged_iterations h
  have hsecant := s.judged_secant h
  obtain ⟨_, _, _, _, _, _, _, rfl⟩ := s.again_eq h hr
  exact ⟨hiterations, hsecant, hd, rfl, hmodel⟩

theorem trialCall_again {r : Run α σ n p} (hr : s.followed h = (r, .again)) :
    (trialCall ⟨h.gradient, h.normal, r⟩).Fresh ∨
      (trialCall ⟨h.gradient, h.normal, r⟩).memory = (s.judged h).memory ∧
        (trialCall ⟨h.gradient, h.normal, r⟩).Alike (trialCall h) := by
  obtain ⟨-, hsecant, hd, hmemory, hmodel⟩ := s.again_run hr
  by_cases hsame : r.search.iterate.model = r.memoryModel
  · refine .inr ⟨?_, ?_, rfl, hd⟩
    · exact (if_neg fun h => h hsame).trans hmemory
    · change r.modelHessian h.normal r.search.iterate.model = _
      rw [hsame, hmodel]
      exact Run.modelHessian_congr hsecant h.normal _
  · left
    change (remembered r).isFresh = true
    unfold remembered
    rw [if_pos hsame]
    rfl

theorem calls_resume {h' : Head α σ n p} (hlink : (trialCall h').Fresh ∨
      (trialCall h').memory = (s.judged h).memory ∧ (trialCall h').Alike (trialCall h)) :
    ∀ q' ∈ (s.calls h').getLast?, ∀ q ∈ (s.calls h).head?, q'.Resumes s.config q := by
  obtain ⟨-, -, -, -, -, hlast⟩ := s.calls_eq h'
  obtain ⟨q, l', hcalls, hmemory, halike, -⟩ := s.calls_eq h
  rw [hlast, hcalls]
  rintro _ ⟨⟩ _ ⟨⟩
  refine hlink.imp_right fun ⟨hhanded, htrial⟩ => ⟨hhanded.trans hmemory, htrial.trans ?_⟩
  exact ⟨halike.hessian.symm, halike.gradient.symm, halike.d.symm⟩

theorem calls_ne_nil (h : Head α σ n p) : s.calls h ≠ [] := by
  obtain ⟨q, l', hcalls, -⟩ := s.calls_eq h
  rw [hcalls]
  exact List.cons_ne_nil _ _

theorem calls_isChain {r₀ : Run α σ n p} {l : List (Head α σ n p)} (hl : s.Passes r₀ l) :
    (l.flatMap s.calls).IsChain (StepCall.Resumes s.config) := by
  refine s.passes_isChain hl s.calls_ne_nil s.calls_chain ?again ?next
  case again =>
    intro h r hr
    exact s.calls_resume (s.trialCall_again hr)
  case next =>
    intro h r _
    exact s.calls_resume (.inl (s.trialCall_opening r))

theorem passes_fresh {r₀ : Run α σ n p} {l : List (Head α σ n p)} (hl : s.Passes r₀ l) :
    ∀ q ∈ (l.flatMap s.calls).getLast?, q.Fresh := by
  intro q hq
  obtain ⟨-, -, -, -, -, hlast⟩ := s.calls_eq (s.opening r₀)
  rw [s.passes_getLast? hl s.calls_ne_nil, hlast] at hq
  obtain rfl := Option.some.inj hq
  exact s.trialCall_opening r₀

/-- The trial is one of the iteration that follows the run `r`. -/
structure Belongs (r : Run α σ n p) (h : Head α σ n p) : Prop where
  iterations : h.run.iterations = (s.opening r).run.iterations
  gradient : h.gradient = (s.opening r).gradient
  normal : h.normal = (s.opening r).normal
  secant : h.run.secant = (s.opening r).run.secant
  d : h.run.search.iterate.d = (s.opening r).run.search.iterate.d

def Starts (r₀ : Run α σ n p) (l : List (Head α σ n p)) (r : Run α σ n p) : Prop :=
  s.opening r ∈ l ∧ (r = r₀ ∨ ∃ q ∈ l, s.followed q = (r, .accepted))

variable {s} in
theorem Starts.cons {r₀ r : Run α σ n p} {l : List (Head α σ n p)} (h : s.Starts r₀ l r)
    (q : Head α σ n p) : s.Starts r₀ (q :: l) r := by
  refine ⟨List.mem_cons_of_mem q h.1, h.2.imp_right ?_⟩
  rintro ⟨q', hq', hr⟩
  exact ⟨q', List.mem_cons_of_mem q hq', hr⟩

theorem exists_belongs {r₀ : Run α σ n p} {l : List (Head α σ n p)} (hl : s.Passes r₀ l) :
    ∀ h ∈ l, ∃ r, s.Starts r₀ l r ∧ s.Belongs r h := by
  have hlater {q : Head α σ n p} {l : List (Head α σ n p)}
      (hl : ∀ h ∈ l, ∃ r, s.Starts r₀ l r ∧ s.Belongs r h) :
      ∀ h ∈ l, ∃ r, s.Starts r₀ (q :: l) r ∧ s.Belongs r h := fun h hh =>
    (hl h hh).imp fun r hr => hr.imp_left fun hstarts => hstarts.cons q
  induction hl with
  | opened =>
    exact List.forall_mem_singleton.mpr
      ⟨r₀, ⟨List.mem_singleton.mpr rfl, .inl rfl⟩, rfl, rfl, rfl, rfl, rfl⟩
  | @again h l r _ _ hr ih =>
    refine List.forall_mem_cons.mpr ⟨?_, hlater ih⟩
    obtain ⟨r₁, hstarts, hw⟩ := ih h List.mem_cons_self
    obtain ⟨hiterations, hsecant, hd, -, -⟩ := s.again_run hr
    exact ⟨r₁, hstarts.cons _, hiterations.trans hw.iterations, hw.gradient, hw.normal,
      hsecant.trans hw.secant, hd.trans hw.d⟩
  | @next h l r _ _ hr _ ih =>
    refine List.forall_mem_cons.mpr ⟨⟨r, ⟨List.mem_cons_self, .inr ⟨h, ?_, hr⟩⟩, ?_⟩, hlater ih⟩
    · exact List.mem_cons_of_mem _ List.mem_cons_self
    · exact ⟨rfl, rfl, rfl, rfl, rfl⟩

/-- The step of a trial of the iteration that follows the run `r` is computed with the model in
use at that moment, and with the normal matrix and the secants of that iteration. -/
structure Computed (r : Run α σ n p) (h : Head α σ n p) : Prop where
  iterations : h.run.iterations = r.iterations + 1
  hessian : (trialCall h).hessian = (s.opening r).run.modelHessian
    (r.base.jacobian.pivotedQr 0).normalMatrix h.run.search.iterate.model
  gradient : (trialCall h).gradient = r.base.gradient
  d : (trialCall h).d = (s.opening r).run.search.iterate.d
  step : (s.tried h).search.trial = (s.bounds.bind fun b =>
      b.constrain? h.run.search.iterate.x₀ (trialCall h).gradient (trialCall h).hessian
        (trialCall h).d ((trialCall h).answer s.config).1).getD
    ((trialCall h).answer s.config).1
  memory : (s.tried h).memory = ((trialCall h).answer s.config).2
  probe : (assess s.config (s.scored h)).verdict = .probe → s.judged h = { s.evaluated h with
    search := assess s.config { assess s.config (s.scored h) with
      trial := ((s.probeCall h).answer s.config).1 }
    memory := ((s.probeCall h).answer s.config).2 }

variable {s} in
theorem Belongs.computed {r : Run α σ n p} (hw : s.Belongs r h) : s.Computed r h where
  iterations := hw.iterations.trans (s.opening_iterations r)
  hessian := by
    change h.run.modelHessian h.normal h.run.search.iterate.model = _
    rw [hw.normal]
    exact Run.modelHessian_congr hw.secant _ _
  gradient := hw.gradient
  d := hw.d
  step := by
    rw [tried_eq]
    rfl
  memory := s.tried_answer h
  probe := by
    intro hprobe
    obtain ⟨search, memory, hjudged, ⟨hv, -⟩ | ⟨-, t, hsearch, ht⟩⟩ := s.judged_eq h
    · exact absurd hprobe hv
    · have hanswer : (t, memory) = (s.probeCall h).answer s.config := ht
      rw [hjudged, hsearch, ← hanswer]

end Setup

variable {P : Problem α σ p} {initial : Vector α p} {lower upper : Option (Array (Scalar.Side α))}
  {c : Config α} {state : σ} {report : Report α p}

/-- What the step solver remembers always belongs to the model it is called for. A call goes on
from the one before it or starts afresh, so it is for the model of the latest fresh start, and
every trial is computed with the model in use. -/
theorem fit_restarts (h : (fit P initial lower upper c state).1 = .ok report) :
    ∃ (n : Nat) (s : Setup α σ p) (r₀ : Run α σ n p) (l : List (Head α σ n p))
      (r : Run α σ n p) (o : Outcome), Begun P initial lower upper c state s r₀ ∧
        s.Ran r₀ l r o ∧ report = (s.finish r o).1 ∧
        (∀ q l', q :: l' <:+ l.flatMap s.calls → ¬q.Fresh →
          ∃ q₀, Latest StepCall.Fresh l' q₀ ∧ q.Alike q₀) ∧
        (l.flatMap s.calls).IsChain (StepCall.Resumes s.config) ∧
        ∀ h ∈ l, ∃ r₁, s.Starts r₀ l r₁ ∧ s.Computed r₁ h := by
  obtain ⟨n, s, r₀, l, r, o, hbegun, ⟨hl, hend⟩, hreport⟩ := fit_ran h
  have hchain := s.calls_isChain hl
  refine ⟨n, s, r₀, l, r, o, hbegun, ⟨hl, hend⟩, hreport, fun q l' hsuffix hq => ?_, hchain,
    fun h hh => ?_⟩
  · refine StepCall.latest_fresh (hchain.suffix hsuffix) (fun q' hq' => ?_) hq
    obtain ⟨l₁, hl₁⟩ := hsuffix
    refine s.passes_fresh hl q' ?_
    rw [← hl₁, List.getLast?_append_of_ne_nil _ (List.cons_ne_nil q l')]
    exact hq'
  · obtain ⟨r₁, hstarts, hw⟩ := s.exists_belongs hl h hh
    exact ⟨r₁, hstarts, hw.computed⟩

theorem Unsteady.calls_trials :
    (assess setup.config (setup.scored second)).verdict = .probe ∧
      third.run.search.iterate.model ≠ third.run.memoryModel ∧
      (Setup.trialCall fourth).memory.isFresh = false := by
  decide +kernel

theorem fit_restarts_unsteady : ∃ report,
    (fit Unsteady.problem #v[0] none none Unsteady.config 0).1 = .ok report ∧
    ∃ (n : Nat) (s : Setup Float Nat 1) (r₀ : Run Float Nat n 1) (l : List (Head Float Nat n 1))
      (r : Run Float Nat n 1) (o : Outcome),
        Begun Unsteady.problem #v[0] none none Unsteady.config 0 s r₀ ∧
        s.Ran r₀ l r o ∧ report = (s.finish r o).1 ∧
        (∀ q l', q :: l' <:+ l.flatMap s.calls → ¬q.Fresh →
          ∃ q₀, Latest StepCall.Fresh l' q₀ ∧ q.Alike q₀) ∧
        (l.flatMap s.calls).IsChain (StepCall.Resumes s.config) ∧
        (∀ h ∈ l, ∃ r₁, s.Starts r₀ l r₁ ∧ s.Computed r₁ h) ∧
        (∃ h ∈ l, (assess s.config (s.scored h)).verdict = .probe) ∧
        (∃ h ∈ l, h.run.search.iterate.model ≠ h.run.memoryModel) ∧
        ∃ h ∈ l, ¬(Setup.trialCall h).Fresh := by
  obtain ⟨n, s, r₀, l, r, o, hbegun, hran, hreport, hfresh, hchain, hcomputed⟩ :=
    fit_restarts Unsteady.begun.fit_eq
  obtain ⟨rfl, rfl, rfl⟩ := hbegun.unique Unsteady.begun
  obtain ⟨rfl, -, -⟩ := hran.unique Unsteady.ran
  obtain ⟨hprobe, hmodel, hretry⟩ := Unsteady.calls_trials
  exact ⟨_, Unsteady.begun.fit_eq, 2, _, _, _, r, o, hbegun, hran, hreport, hfresh, hchain,
    hcomputed, ⟨Unsteady.second, by simp, hprobe⟩, ⟨Unsteady.third, by simp, hmodel⟩,
    Unsteady.fourth, by simp, Bool.eq_false_iff.mp hretry⟩

end LeastSquares
