import LeastSquares.Fit.Run

namespace LeastSquares

variable {α σ : Type} {n p : Nat}

/-- A run before one of its trials, in an iteration with this gradient and normal matrix. -/
structure Head (α σ : Type) (n p : Nat) where
  gradient : Vector α p
  normal : Symmetric α p
  run : Run α σ n p

variable [Geometry α]

namespace Setup

variable (s : Setup α σ p)

def opening (r : Run α σ n p) : Head α σ n p :=
  let r := { r with iterations := r.iterations + 1 }
  let f := r.base.jacobian.pivotedQr 0
  ⟨r.base.gradient, f.normalMatrix, (r.rankWarning f).beginIteration s.config r.base.gradient⟩

variable (h : Head α σ n p)

def tried : Run α σ n p := s.computeStep h.gradient h.normal h.run

def evaluated : Run α σ n p := s.evaluateTrial (s.tried h)

def judged : Run α σ n p :=
  s.judge h.gradient ((s.tried h).hessian h.normal) (s.evaluated h)

def followed : Run α σ n p × Next :=
  s.follow h.gradient h.normal ((s.tried h).hessian h.normal) (s.tried h).search.iterate.model
    (s.judged h)

def remembered (r : Run α σ n p) : StepMemory α p :=
  if r.search.iterate.model ≠ r.memoryModel then r.memory.reset else r.memory

def unclamped : Trial α p × StepMemory α p :=
  trustStep s.config (h.run.hessian h.normal) h.gradient h.run.search.iterate.d
    h.run.search.iterate.radius (remembered h.run)

def clamped : Trial α p :=
  (s.bounds.bind fun b => b.constrain? h.run.search.iterate.x₀ h.gradient
    (h.run.hessian h.normal) h.run.search.iterate.d (s.unclamped h).1).getD (s.unclamped h).1

def Continues : Prop := h.run.account.functionEvals < s.config.maxFunctionEvals

theorem tryStep_tried : s.tryStep h.gradient h.normal (s.tried h) = s.followed h := rfl

/-- The trials of a run that begins with `r₀`, the latest one first. -/
inductive Passes (r₀ : Run α σ n p) : List (Head α σ n p) → Prop where
  | opened : Passes r₀ [s.opening r₀]
  | again {h : Head α σ n p} {l : List (Head α σ n p)} {r : Run α σ n p} :
      Passes r₀ (h :: l) → s.Continues h → s.followed h = (r, .again) →
      Passes r₀ (⟨h.gradient, h.normal, r⟩ :: h :: l)
  | next {h : Head α σ n p} {l : List (Head α σ n p)} {r : Run α σ n p} :
      Passes r₀ (h :: l) → s.Continues h → s.followed h = (r, .accepted) →
      r.iterations < s.config.maxIterations → Passes r₀ (s.opening r :: h :: l)

variable {s} in
@[elab_as_elim]
theorem Passes.head_induction {r₀ : Run α σ n p}
    {motive : ∀ h l, s.Passes r₀ (h :: l) → Prop} (opened : motive (s.opening r₀) [] .opened)
    (again : ∀ {h l r} (hl : s.Passes r₀ (h :: l)) (hcontinues : s.Continues h)
      (hr : s.followed h = (r, .again)), motive h l hl →
      motive ⟨h.gradient, h.normal, r⟩ (h :: l) (hl.again hcontinues hr))
    (next : ∀ {h l r} (hl : s.Passes r₀ (h :: l)) (hcontinues : s.Continues h)
      (hr : s.followed h = (r, .accepted)) (hleft : r.iterations < s.config.maxIterations),
      motive h l hl → motive (s.opening r) (h :: l) (hl.next hcontinues hr hleft))
    {h : Head α σ n p} {l : List (Head α σ n p)} (hl : s.Passes r₀ (h :: l)) : motive h l hl := by
  suffices hall : ∀ {l'} (hl : s.Passes r₀ l') {h l} (heq : l' = h :: l), motive h l (heq ▸ hl) from
    hall hl rfl
  intro l' hl
  induction hl with
  | opened =>
    rintro _ _ ⟨⟩
    exact opened
  | again hl hcontinues hr ih =>
    rintro _ _ ⟨⟩
    exact again hl hcontinues hr (ih rfl)
  | next hl hcontinues hr hleft ih =>
    rintro _ _ ⟨⟩
    exact next hl hcontinues hr hleft (ih rfl)

/-- How a run ends at its last trial. -/
inductive Ends : Head α σ n p → Run α σ n p → Outcome → Prop where
  | limit {h : Head α σ n p} : ¬s.Continues h → Ends h (giveUp (s.tried h)) .functionEvalLimit
  | finished {h : Head α σ n p} {r : Run α σ n p} {o : Outcome} : s.Continues h →
      s.followed h = (r, .finished o) → Ends h r o
  | exhausted {h : Head α σ n p} {r : Run α σ n p} : s.Continues h →
      s.followed h = (r, .accepted) → s.config.maxIterations ≤ r.iterations →
      Ends h r .iterationLimit

def Ran (r₀ : Run α σ n p) (l : List (Head α σ n p)) (r : Run α σ n p) (o : Outcome) : Prop :=
  s.Passes r₀ l ∧ ∃ h ∈ l.head?, s.Ends h r o

theorem stepLoop_eq (g : Vector α p) (normal : Symmetric α p) (r : Run α σ n p) :
    s.stepLoop g normal r =
      if s.config.maxFunctionEvals ≤ r.account.functionEvals then
        (giveUp (s.tried ⟨g, normal, r⟩), some .functionEvalLimit)
      else match s.followed ⟨g, normal, r⟩ with
        | (r', .again) => s.stepLoop g normal r'
        | (r', .accepted) => (r', none)
        | (r', .finished o) => (r', some o) := by
  rw [stepLoop]
  split
  · rfl
  · rw [← tryStep_tried]
    simp only [tried]
    split <;> simp_all

theorem iterate_eq (r : Run α σ n p) :
    s.iterate r = s.stepLoop (s.opening r).gradient (s.opening r).normal (s.opening r).run := rfl

theorem clamped_cases : s.clamped h = (s.unclamped h).1 ∨ ∃ step : Vector α p,
    s.clamped h = (s.unclamped h).1.rescored h.gradient (h.run.hessian h.normal)
      h.run.search.iterate.d step := by
  unfold clamped
  cases s.bounds with
  | none => exact .inl rfl
  | some b =>
    rw [Option.bind_some]
    unfold Bounds.constrain?
    dsimp only
    split
    · exact .inl rfl
    · exact .inr ⟨_, rfl⟩

theorem tried_eq :
    s.tried h = { h.run with
      search := { h.run.search with
        trial := s.clamped h
        iterate := { h.run.search.iterate with
          x := h.run.search.iterate.x₀ + (s.clamped h).step } }
      memory := (s.unclamped h).2
      memoryModel := h.run.search.iterate.model } := by
  have hrefresh : refreshMemory h.run =
      { h.run with memory := remembered h.run, memoryModel := h.run.search.iterate.model } := by
    unfold refreshMemory remembered
    dsimp only
    split
    · rfl
    · next hsame => rw [Decidable.not_not.mp hsame]
  have hhessian : Run.hessian { h.run with
      memory := remembered h.run, memoryModel := h.run.search.iterate.model } h.normal =
      h.run.hessian h.normal := by
    unfold Run.hessian
    dsimp only
    cases h.run.search.iterate.model <;> rfl
  unfold tried computeStep
  rw [hrefresh]
  dsimp only
  rw [hhessian]
  unfold constrained clamped
  dsimp only [newStep]
  split
  · next t ht =>
    have hget : (s.bounds.bind fun b => b.constrain? h.run.search.iterate.x₀ h.gradient
        (h.run.hessian h.normal) h.run.search.iterate.d (s.unclamped h).1) = some t := ht
    rw [hget]
    rfl
  · next ht =>
    have hget : (s.bounds.bind fun b => b.constrain? h.run.search.iterate.x₀ h.gradient
        (h.run.hessian h.normal) h.run.search.iterate.d (s.unclamped h).1) = none := ht
    rw [hget]
    rfl

end Setup

end LeastSquares
