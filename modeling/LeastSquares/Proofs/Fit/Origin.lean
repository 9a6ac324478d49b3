import LeastSquares.Proofs.Assess.Origin
import LeastSquares.Proofs.Fit.Begun
import LeastSquares.Proofs.Fit.Steady

namespace LeastSquares

variable {σ : Type} {n p : Nat}

/-- The first of the list with this property. Trials are listed with the latest one first. -/
def Latest {β : Type} (P : β → Prop) (l : List β) (q : β) : Prop :=
  ∃ l₁ l₂, l = l₁ ++ q :: l₂ ∧ P q ∧ ∀ h ∈ l₁, ¬P h

section

variable {β : Type} {P : β → Prop} {h q : β} {l : List β}

theorem latest_head (hh : P h) : Latest P (h :: l) h :=
  ⟨[], l, rfl, hh, fun _ hmem => absurd hmem List.not_mem_nil⟩

theorem Latest.cons (hl : Latest P l q) (hh : ¬P h) : Latest P (h :: l) q := by
  obtain ⟨l₁, l₂, rfl, hq, hnone⟩ := hl
  exact ⟨h :: l₁, l₂, rfl, hq, List.forall_mem_cons.mpr ⟨hh, hnone⟩⟩

end

namespace Head

def model (h : Head ℝ σ n p) : Model := h.run.search.iterate.model

structure Alongside (q h : Head ℝ σ n p) : Prop where
  iterations : q.run.iterations = h.run.iterations
  gradient : q.gradient = h.gradient
  normal : q.normal = h.normal
  secant : q.run.secant = h.run.secant
  x₀ : q.run.search.iterate.x₀ = h.run.search.iterate.x₀

theorem Alongside.refl (h : Head ℝ σ n p) : h.Alongside h := ⟨rfl, rfl, rfl, rfl, rfl⟩

theorem Alongside.trans {h₁ h₂ h₃ : Head ℝ σ n p} (h : h₁.Alongside h₂)
    (h' : h₂.Alongside h₃) : h₁.Alongside h₃ :=
  ⟨h.iterations.trans h'.iterations, h.gradient.trans h'.gradient, h.normal.trans h'.normal,
    h.secant.trans h'.secant, h.x₀.trans h'.x₀⟩

theorem Alongside.hessian {q h : Head ℝ σ n p} (hq : q.Alongside h) :
    q.run.hessian q.normal = h.run.modelHessian h.normal q.model := by
  rw [Run.hessian, hq.normal, Run.modelHessian_congr hq.secant]
  rfl

end Head

namespace Setup

variable (s : Setup ℝ σ p)

section

variable (h : Head ℝ σ n p)

/-- The trial was not put off for being too large to be evaluated. -/
def Weighed : Prop := ¬(s.judged h).search.record.stage < 0

def Makes : Prop := s.Weighed h ∧ ¬(s.scored h).Reverts

/-- The step that is judged at this trial is taken for one of its model. -/
def Names : Prop := s.Weighed h ∧ ¬(s.scored h).Yields

end

/-- Where the best step before a trial comes from, and where its model does. -/
structure Origin (h : Head ℝ σ n p) (l : List (Head ℝ σ n p)) : Prop where
  step : ¬h.run.search.iterate.f₀ ≤ h.run.search.record.bestF →
    ∃ q, Latest s.Makes l q ∧ q.Alongside h ∧ h.run.search.record.bestStep = (s.clamped q).step
  model : ∃ b, Latest s.Names l b ∧ b.Alongside h ∧ h.run.search.record.bestModel = b.model

variable {h : Head ℝ σ n p} {l : List (Head ℝ σ n p)} {r : Run ℝ σ n p}

theorem scored_opens : (s.scored h).Opens ↔ h.run.search.Opens := by
  rw [scored_eq]
  exact Iff.rfl

theorem taken_step (ho : ¬h.run.search.Opens → s.Origin h l) (hw : s.Weighed h) {t : Trial ℝ p}
    {f : ℝ} {x : Vector ℝ p} {m : Model} (ht : (s.scored h).Taken t f x m) :
    ∃ q, Latest s.Makes (h :: l) q ∧ q.Alongside h ∧ t.step = (s.clamped q).step ∧
      x = s.target q := by
  rcases ht.reverts_or with ⟨hreverts, rfl, rfl⟩ | ⟨hown, rfl, rfl⟩
  · have hopens : ¬h.run.search.Opens := fun hopens =>
      hreverts.1 (s.scored_opens.mpr hopens)
    have hgain : ¬h.run.search.iterate.f₀ ≤ h.run.search.record.bestF := by
      have hgain := hreverts.2.1
      rw [scored_eq] at hgain
      exact hgain
    obtain ⟨q, hq, halong, hstep⟩ := (ho hopens).step hgain
    have htarget : s.target q = h.run.search.iterate.x₀ + h.run.search.record.bestStep := by
      rw [target, halong.x₀, hstep]
    refine ⟨q, hq.cons fun hmakes => hmakes.2 hreverts, halong, ?_, ?_⟩
    · rw [scored_eq]
      exact hstep
    · rw [scored_eq, htarget]
  · refine ⟨h, latest_head ⟨hw, hown⟩, .refl h, ?_, ?_⟩
    · rw [scored_eq]
    · rw [scored_eq]

theorem taken_model (ho : ¬h.run.search.Opens → s.Origin h l) (hw : s.Weighed h) {t : Trial ℝ p}
    {f : ℝ} {x : Vector ℝ p} {m : Model} (ht : (s.scored h).Taken t f x m) :
    ∃ b, Latest s.Names (h :: l) b ∧ b.Alongside h ∧ m = b.model := by
  rcases ht.yields_or with ⟨hyields, rfl⟩ | ⟨hown, rfl⟩
  · have hopens : ¬h.run.search.Opens := fun hopens => hyields.1 (s.scored_opens.mpr hopens)
    obtain ⟨b, hb, halong, hmodel⟩ := (ho hopens).model
    refine ⟨b, hb.cons fun hnames => hnames.2 hyields, halong, ?_⟩
    rw [scored_eq]
    exact hmodel
  · refine ⟨h, latest_head ⟨hw, hown⟩, .refl h, ?_⟩
    rw [scored_eq]
    rfl

theorem alongside_again (hs : h.Steady) (hr : s.followed h = (r, .again)) :
    h.Alongside ⟨h.gradient, h.normal, r⟩ := by
  have hx₀ : (s.judged h).search.iterate.x₀ = h.run.search.iterate.x₀ := by
    rw [(s.judged_judged hs).1.x₀_eq, scored_eq]
  refine ⟨(s.followed_iterations h hr).symm, rfl, rfl, ?_, ?_⟩
  · rw [← s.judged_secant h]
    obtain ⟨_, _, _, _, _, _, _, rfl⟩ := s.again_eq h hr
    rfl
  · rw [← hx₀]
    obtain ⟨_, _, _, _, _, _, _, rfl⟩ := s.again_eq h hr
    rfl

theorem judged_origin (hs : h.Steady) (ho : ¬h.run.search.Opens → s.Origin h l)
    (hv : (s.judged h).search.verdict = .otherOrShorter ∨
      (s.judged h).search.verdict = .otherOrAccept ∨ (s.judged h).search.verdict = .recompute)
    (hopens : ¬(s.judged h).search.Opens) :
    (¬h.run.search.iterate.f₀ ≤ (s.judged h).search.record.bestF → ∃ q,
      Latest s.Makes (h :: l) q ∧ q.Alongside h ∧
        (s.judged h).search.record.bestStep = (s.clamped q).step) ∧
    ∃ b, Latest s.Names (h :: l) b ∧ b.Alongside h ∧
      (s.judged h).search.record.bestModel = b.model := by
  rcases (s.judged_judged hs).1.recorded hv with
    ⟨hwaits, ⟨hnot, hf, hmodel, hstep⟩ | hagain⟩ | ⟨hw, t, f, x, htaken, hstep⟩
  · have horigin := ho fun hopens => hnot (s.scored_opens.mpr hopens)
    rw [scored_eq] at hf hmodel hstep
    rw [hf, hmodel, hstep]
    constructor
    · intro hgain
      obtain ⟨q, hq, halong, hstep⟩ := horigin.step hgain
      exact ⟨q, hq.cons fun hmakes => hmakes.1 hwaits, halong, hstep⟩
    · obtain ⟨b, hb, halong, hmodel⟩ := horigin.model
      exact ⟨b, hb.cons fun hnames => hnames.1 hwaits, halong, hmodel⟩
  · exact absurd hagain hopens
  · refine ⟨fun hgain => ?_, s.taken_model ho hw htaken⟩
    obtain ⟨q, hq, halong, hq', -⟩ := s.taken_step ho hw htaken
    rcases hstep with hle | hstep
    · rw [scored_eq] at hle
      exact absurd hle hgain
    · exact ⟨q, hq, halong, hstep.trans hq'⟩

theorem origin_again (hs : h.Steady) (ho : ¬h.run.search.Opens → s.Origin h l)
    (hr : s.followed h = (r, .again)) (hopens : ¬r.search.Opens) :
    s.Origin ⟨h.gradient, h.normal, r⟩ (h :: l) := by
  have halong := s.alongside_again hs hr
  have hf₀ : (s.judged h).search.iterate.f₀ = h.run.search.iterate.f₀ := by
    rw [(s.judged_judged hs).1.f₀_eq, scored_eq]
  have hsame (hverdict : r.search.verdict = (s.judged h).search.verdict)
      (hsearch : r.search.record = (s.judged h).search.record)
      (hfloor : r.search.iterate.f₀ = h.run.search.iterate.f₀)
      (hv : (s.judged h).search.verdict = .otherOrShorter ∨
        (s.judged h).search.verdict = .otherOrAccept ∨
        (s.judged h).search.verdict = .recompute) :
      s.Origin ⟨h.gradient, h.normal, r⟩ (h :: l) := by
    have hopens : ¬(s.judged h).search.Opens := fun h => hopens (h.congr hverdict hsearch)
    obtain ⟨hstep, b, hb, hb', hmodel⟩ := s.judged_origin hs ho hv hopens
    refine ⟨fun hgain => ?_, b, hb, hb'.trans halong, ?_⟩
    · dsimp only at hgain ⊢
      rw [hsearch, hfloor] at hgain
      obtain ⟨q, hq, hq', hstep⟩ := hstep hgain
      exact ⟨q, hq, hq'.trans halong, by rw [hsearch, hstep]⟩
    · dsimp only
      rw [hsearch, hmodel]
  rcases s.followed_again h hr with ⟨hv, rfl⟩ | ⟨hv, rfl⟩ | ⟨hv, e, a, -, rfl⟩
  · exact hsame rfl rfl hf₀ (hv.imp_right .inl)
  · exact hsame rfl rfl hf₀ (.inr (.inr hv))
  · exact absurd (.inr (.inl rfl)) hopens

theorem passes_origin {r₀ : Run ℝ σ n p} (hstart : r₀.search.verdict = .accept)
    (hl : s.Passes r₀ (h :: l)) (hopens : ¬h.run.search.Opens) : s.Origin h l := by
  have hsteady := s.passes_steady hstart hl
  induction hl using Passes.head_induction with
  | opened =>
    obtain ⟨_, _, _, _, _, _, -, hopening⟩ := s.opening_run r₀
    rw [hopening] at hopens
    exact absurd (.inr (.inl hstart)) hopens
  | @again q l r _ _ hr ih =>
    have htail := fun h hh => hsteady h (List.mem_cons_of_mem _ hh)
    exact s.origin_again (htail q List.mem_cons_self) (fun hq => ih hq htail) hr hopens
  | @next q l r _ _ hr _ ih =>
    obtain ⟨_, _, _, _, _, _, -, hopening⟩ := s.opening_run r
    obtain ⟨hv, _, _, _, _, -, rfl⟩ := s.followed_accepted _ hr
    rw [hopening] at hopens
    exact absurd (hv.imp_right .inl) hopens

end Setup

end LeastSquares
