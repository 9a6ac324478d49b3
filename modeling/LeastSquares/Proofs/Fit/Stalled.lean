import LeastSquares.Proofs.Assess.Rest
import LeastSquares.Proofs.Bounds
import LeastSquares.Proofs.Fit.Known
import LeastSquares.Proofs.Fit.Paced

namespace LeastSquares

open Matrix

variable {σ : Type} {n p : Nat}

/-- The iteration starts where the problem was last asked for its Jacobian. -/
structure Head.Anchored (h : Head ℝ σ n p) (P : Problem ℝ σ p) : Prop where
  answered : h.run.base.Answered P
  place : h.run.base.x = h.run.search.iterate.x₀
  gradient : h.gradient = h.run.base.gradient

namespace Setup

variable (s : Setup ℝ σ p) {h : Head ℝ σ n p}

theorem anchored_opening {r : Run ℝ σ n p} (hr : r.base.Answered s.problem)
    (hplace : r.base.x = r.search.iterate.x) : (s.opening r).Anchored s.problem := by
  obtain ⟨_, _, _, _, _, _, -, heq⟩ := s.opening_run r
  have hbase : (s.opening r).run.base = r.base := by rw [heq]
  refine ⟨?_, ?_, ?_⟩
  · rw [hbase]
    exact hr
  · rw [hbase, hplace, heq]
  · rw [hbase]
    rfl

theorem anchored_again (hs : h.Steady) (hh : h.Anchored s.problem) {r : Run ℝ σ n p}
    (hr : s.followed h = (r, .again)) : Head.Anchored ⟨h.gradient, h.normal, r⟩ s.problem := by
  have hbase : r.base = h.run.base := by
    rw [← s.judged_base h]
    obtain ⟨_, _, _, _, _, _, _, rfl⟩ := s.again_eq h hr
    rfl
  refine ⟨?_, ?_, ?_⟩ <;> dsimp only <;> rw [hbase]
  · exact hh.answered
  · exact hh.place.trans (s.alongside_again hs hr).x₀
  · exact hh.gradient

theorem passes_anchored {r₀ : Run ℝ σ n p} (hr₀ : r₀.base.Answered s.problem)
    (hplace : r₀.base.x = r₀.search.iterate.x) (hstart : r₀.search.verdict = .accept)
    {l : List (Head ℝ σ n p)} (hl : s.Passes r₀ l) : ∀ h ∈ l, h.Anchored s.problem := by
  have hsteady := s.passes_steady hstart hl
  refine s.passes_invariant hl (s.anchored_opening hr₀ hplace) ?again ?next
  case again =>
    intro h _ r _ hmem hh _ hr
    exact s.anchored_again (hsteady h hmem) hh hr
  case next =>
    intro h _ r _ _ _ _ hr
    obtain ⟨-, v, j, a, state, hj, rfl⟩ := s.followed_accepted h hr
    exact s.anchored_opening (answered_of_countedLinearization (congrArg Prod.fst hj)) rfl

variable (h)

def Stalls (b : Bounds ℝ p) : Prop :=
  s.bounds = some b ∧
    b.project (h.run.search.iterate.x₀ + (s.unclamped h).1.step) = h.run.search.iterate.x₀

/-- The Hessian of the model in use, shifted as it is for the step. -/
noncomputable def shifted : Matrix (Fin p) (Fin p) ℝ :=
  (h.run.hessian h.normal).matrix +
    |(s.unclamped h).1.parameter| • squaredScale h.run.search.iterate.d

/-- What the gradient owes, against its sign, to the other components of the step and to a
stretch `v` of it. -/
noncomputable def pull (v : Fin p → ℝ) : Fin p → ℝ := fun i =>
  ∑ j ∈ Finset.univ.erase i, s.shifted h i j * (s.unclamped h).1.step[j] - (s.shifted h *ᵥ v) i

/-- The first trial of an iteration is put back to where it started, and has the value that
is known from there. -/
structure Rests : Prop where
  first : h.run.search.verdict = .acceptByGradient ∨ h.run.search.verdict = .accept
  continues : s.Continues h
  moves : (s.unclamped h).1.step ≠ Vector.replicate p 0
  value : s.value h = some h.run.search.iterate.f₀

/-- What a step that stalls tells of the gradient: it is that of a shifted model, but for a
stretch `v` along a direction of little curvature, and the point is stationary in each
component in which the pull is blocked. -/
structure Pinned (b : Bounds ℝ p) : Prop where
  posDef : (s.shifted h).PosDef
  gradient : ∃ v, (0 ≤ (s.unclamped h).1.parameter → v = 0) ∧
    s.shifted h *ᵥ (coords (s.unclamped h).1.step - v) = -coords h.gradient ∧
    v ⬝ᵥ s.shifted h *ᵥ v ≤ stretchLoss s.config * ((coords (s.unclamped h).1.step - v) ⬝ᵥ
      s.shifted h *ᵥ (coords (s.unclamped h).1.step - v) + |(s.unclamped h).1.parameter| *
        h.run.search.iterate.radius * h.run.search.iterate.radius) ∧
    ∀ i, b.Blocks h.run.search.iterate.x₀ (s.pull h v) i →
      b.Stationary h.run.search.iterate.x₀ h.gradient i

variable {h} {b : Bounds ℝ p}

theorem neg_gradient_eq {v : Fin p → ℝ}
    (hv : s.shifted h *ᵥ (coords (s.unclamped h).1.step - v) = -coords h.gradient) (i : Fin p) :
    (-coords h.gradient) i =
      s.shifted h i i * coords (s.unclamped h).1.step i + s.pull h v i := by
  have hsum : (s.shifted h *ᵥ coords (s.unclamped h).1.step) i =
      s.shifted h i i * (s.unclamped h).1.step[i] +
        ∑ j ∈ Finset.univ.erase i, s.shifted h i j * (s.unclamped h).1.step[j] :=
    (Finset.add_sum_erase _ (fun j => s.shifted h i j * (s.unclamped h).1.step[j])
      (Finset.mem_univ i)).symm
  rw [← hv, mulVec_sub, Pi.sub_apply, hsum, pull, coords_apply]
  ring

theorem stalls_pinned (hc : s.config.validate p = .ok ())
    (hlimit : s.config.hebdenIterationLimit < 2 ^ 30) (hb : b.Ordered) (hh : h.Paced)
    (hstalls : s.Stalls h b) : s.Pinned h b := by
  have hblocks := Bounds.blocks_of_project_eq hb hstalls.2
  obtain ⟨hdef, v, hzero, hequation, hsmall⟩ :=
    trustStep_equation hc hlimit hh.d (remembered_fits hh.memory) hh.radius
  refine ⟨hdef, v, hzero, hequation, hsmall, fun i hpull => ?_⟩
  exact (hblocks i).add hpull hdef.diag_pos.le (s.neg_gradient_eq hequation i)

theorem Pinned.stationary {s : Setup ℝ σ p} (hp : s.Pinned h b)
    (hparameter : 0 ≤ (s.unclamped h).1.parameter) {i : Fin p}
    (hdecoupled : ∀ j ≠ i, s.shifted h i j * (s.unclamped h).1.step[j] = 0) :
    b.Stationary h.run.search.iterate.x₀ h.gradient i := by
  obtain ⟨v, hzero, -, -, hblocks⟩ := hp.gradient
  apply hblocks i
  apply Bounds.blocks_of_zero
  have hsum : ∑ j ∈ Finset.univ.erase i, s.shifted h i j * (s.unclamped h).1.step[j] = 0 :=
    Finset.sum_eq_zero fun j hj => hdecoupled j (Finset.ne_of_mem_erase hj)
  rw [pull, hsum, hzero hparameter, mulVec_zero, Pi.zero_apply, sub_zero]

theorem clamped_rests (hstalls : s.Stalls h b)
    (hmoves : (s.unclamped h).1.step ≠ Vector.replicate p 0) :
    (s.clamped h).step = Vector.replicate p 0 ∧ (s.clamped h).Rests := by
  obtain ⟨hbounds, hproject⟩ := hstalls
  have hzero : h.run.search.iterate.x₀ - h.run.search.iterate.x₀ =
      Vector.replicate p (0 : ℝ) := by
    apply coords_injective
    rw [coords_sub, coords_replicate_zero, sub_self]
  have hlength : Geometry.norm (timesEach (Vector.replicate p (0 : ℝ))
      h.run.search.iterate.d) = 0 := by
    rw [norm_eq_zero, coords_timesEach, coords_replicate_zero, zero_mul]
  have hconstrain : (s.bounds.bind fun b => b.constrain? h.run.search.iterate.x₀ h.gradient
      (h.run.hessian h.normal) h.run.search.iterate.d (s.unclamped h).1) =
      some ⟨Vector.replicate p 0, 0, dot h.gradient (Vector.replicate p 0), 0, 0, 0, 0⟩ := by
    rw [hbounds, Option.bind_some]
    unfold Bounds.constrain?
    dsimp only
    rw [hproject, hzero, if_neg (by simpa using hmoves.symm)]
    unfold Trial.rescored
    dsimp only
    rw [hlength, beq_self_eq_true, if_pos rfl]
  unfold clamped
  rw [hconstrain]
  exact ⟨rfl, rfl, rfl, rfl, rfl, rfl⟩

theorem isNone_found_of_value {f : ℝ} (hvalue : s.value h = some f) :
    (s.found h).isNone = false := by
  rw [value, Option.map_eq_some_iff] at hvalue
  obtain ⟨v, hv, -⟩ := hvalue
  rw [hv]
  rfl

theorem followed_of_rests (hc : s.config.validate p = .ok ()) (hs : h.Steady)
    (hfirst : h.run.search.verdict = .acceptByGradient ∨ h.run.search.verdict = .accept)
    (hstep : coords (s.clamped h).step = 0) (htrial : (s.clamped h).Rests)
    (hvalue : s.value h = some h.run.search.iterate.f₀) :
    s.followed h = (s.judged h, .finished .xConverged) ∧
      (s.judged h).search.iterate.x = h.run.search.iterate.x₀ := by
  have hplace : s.target h = h.run.search.iterate.x₀ := by
    apply coords_injective
    rw [target, coords_add, hstep, add_zero]
  have hscored : (s.scored h).Rests := by
    rw [scored_eq]
    refine ⟨htrial, hplace, ?_⟩
    dsimp only
    rw [hvalue]
    rfl
  have hassess := hscored.assess_eq (c := s.config)
    ⟨Config.nonneg_of_validate hc (f := .falseConvergeTol) (by decide),
      Config.nonneg_of_validate hc (f := .xConvergeTol) (by decide),
      (Config.pos_of_validate hc (f := .initialTrustRadius) (by decide)).le⟩
    (s.scored_steady hs).ready
    (by rw [scored_eq]; exact hfirst)
    (by rw [scored_eq]; exact s.isNone_found_of_value hvalue)
  have hsearch : (s.judged h).search = assess s.config (s.scored h) := by
    apply s.judged_search
    rw [hassess.1]
    decide
  rw [← hsearch] at hassess
  refine ⟨?_, ?_⟩
  · unfold followed follow
    rw [hassess.1]
    rfl
  · rw [hassess.2, (s.judged_judged hs).1.x₀_eq, scored_eq]

theorem rests_finished (hc : s.config.validate p = .ok ()) (hs : h.Steady)
    (hstalls : s.Stalls h b) (hrests : s.Rests h) :
    s.followed h = (s.judged h, .finished .xConverged) ∧
      (s.judged h).search.iterate.x = h.run.search.iterate.x₀ := by
  obtain ⟨hstep, htrial⟩ := s.clamped_rests hstalls hrests.moves
  exact s.followed_of_rests hc hs hrests.first (by rw [hstep, coords_replicate_zero]) htrial
    hrests.value

theorem passes_followed {r₀ : Run ℝ σ n p} {l : List (Head ℝ σ n p)}
    (hl : s.Passes r₀ (h :: l)) : ∀ q ∈ l, ∀ o, (s.followed q).2 ≠ .finished o := by
  induction hl using Passes.head_induction with
  | opened => exact fun q hq => absurd hq List.not_mem_nil
  | again _ _ hr ih =>
    refine List.forall_mem_cons.mpr ⟨fun o => ?_, ih⟩
    rw [hr]
    exact fun h => by cases h
  | next _ _ hr _ ih =>
    refine List.forall_mem_cons.mpr ⟨fun o => ?_, ih⟩
    rw [hr]
    exact fun h => by cases h

theorem finish_params {r : Run ℝ σ n p} {o : Outcome} (hr : r.search.iterate.x = r.base.x) :
    (s.finish r o).1.outcome = o ∧ (s.finish r o).1.params = r.search.iterate.x := by
  have hfinal : s.finalPoint r = (r, r.search.iterate.x, r.base.residuals) := by
    unfold finalPoint knownResiduals?
    dsimp only
    rw [hr, beq_self_eq_true, if_pos rfl]
  unfold finish
  rw [hfinal]
  exact ⟨rfl, rfl⟩

theorem rests_reported (hc : s.config.validate p = .ok ()) {r₀ r : Run ℝ σ n p}
    {l : List (Head ℝ σ n p)} {o : Outcome} (hran : s.Ran r₀ l r o) (hmem : h ∈ l)
    (hs : h.Steady) (hanchored : h.Anchored s.problem) (hstalls : s.Stalls h b)
    (hrests : s.Rests h) :
    (s.finish r o).1.outcome = .xConverged ∧
      (s.finish r o).1.params = h.run.search.iterate.x₀ := by
  obtain ⟨hfollowed, hx⟩ := s.rests_finished hc hs hstalls hrests
  obtain ⟨hl, q, hq, hend⟩ := hran
  obtain ⟨l, rfl⟩ : ∃ l', l = q :: l' := List.head?_eq_some_iff.mp hq
  obtain rfl : h = q := by
    rcases List.mem_cons.mp hmem with heq | htail
    · exact heq
    · exact absurd (congrArg Prod.snd hfollowed) (s.passes_followed hl h htail _)
  have hbase : (s.judged h).search.iterate.x = (s.judged h).base.x := by
    rw [judged_base, hanchored.place, hx]
  cases hend with
  | limit hnot => exact absurd hrests.continues hnot
  | finished _ hr =>
    rw [hfollowed] at hr
    cases hr
    rw [← hx]
    exact s.finish_params hbase
  | exhausted _ hr _ =>
    rw [hfollowed] at hr
    cases hr

end Setup

end LeastSquares
