import LeastSquares.Proofs.Fit.Begun
import LeastSquares.Proofs.Fit.Recorded

namespace LeastSquares

variable {α σ : Type} {n p : Nat} [Geometry α]

/-- A relation between the state of a problem and two counts that every call keeps, if it is
counted as what it is. -/
structure Problem.Counts (P : Problem α σ p) (Q : σ → Nat → Nat → Prop) : Prop where
  residuals : ∀ x state f g, Q state f g → Q (P.evaluate x .residuals state).2 (f + 1) g
  jacobian : ∀ x state f g, Q state f g → Q (P.evaluate x .jacobian state).2 f (g + 1)
  stopRequested : ∀ k x state f g, Q state f g → Q (P.stopRequested k x state).2 f g

/-- The relation holds of the state and the two counts of the account. -/
def Account.Meets (Q : σ → Nat → Nat → Prop) (a : Account σ) : Prop :=
  Q a.state a.functionEvals a.gradientEvals

variable {P : Problem α σ p} {Q : σ → Nat → Nat → Prop} {a : Account σ}

theorem Problem.Counts.countedResiduals (hP : P.Counts Q) (ha : a.Meets Q) (n : Nat)
    (x : Vector α p) : (P.countedResiduals n x a).2.Meets Q :=
  hP.residuals _ _ _ _ ha

theorem Problem.Counts.countedLinearization (hP : P.Counts Q) (ha : a.Meets Q) (n : Nat)
    (x : Vector α p) : (P.countedLinearization n x a).2.Meets Q :=
  hP.jacobian _ _ _ _ ha

namespace Covariance

variable (hP : P.Counts Q)
include hP

theorem gradientColumns_meets (z : Solution α n p) (h : Vector α p) (is : List (Fin p))
    (c : Vector (Vector α p) p) (ha : a.Meets Q) :
    (gradientColumns P z h is z.x c a).2.Meets Q := by
  rw [gradientColumns_eq]
  exact collect_invariant (Q := Account.Meets Q) _ is c
    (fun i _ ha => hP.countedLinearization ha n (moved z.x h i)) ha

theorem singles_meets (z : Solution α n p) (h : Vector α p) (is : List (Fin p)) (f : Vector α p)
    (ha : a.Meets Q) : (singles P z h is z.x f a).2.Meets Q := by
  rw [singles_eq]
  exact collect_invariant (Q := Account.Meets Q) _ is f
    (fun i _ ha => hP.countedResiduals ha n (moved z.x h i)) ha

theorem doubles_meets (z : Solution α n p) (h f : Vector α p) (ps : List (Fin p × Fin p))
    (m : Symmetric α p) (ha : a.Meets Q) : (doubles P z h f ps z.x m a).2.Meets Q := by
  rw [doubles_eq]
  exact collect_invariant (Q := Account.Meets Q) _ ps m
    (fun i _ ha => hP.countedResiduals ha n (moved (moved z.x h i.1) h i.2)) ha

theorem hessian_meets (z : Solution α n p) (d : Vector α p) (source : HessianSource)
    (c : Config α) (ha : a.Meets Q) : (hessian P z d source c a).2.Meets Q := by
  cases source with
  | gradientDifferences =>
    have hcolumns := gradientColumns_meets hP z (steps z.x d c.fdGradientStep) (List.finRange p)
      (Vector.replicate p (Vector.replicate p 0)) ha
    unfold hessian gradientHessian
    dsimp only
    split
    · next heq =>
      rw [heq] at hcolumns
      exact hcolumns
    · next heq =>
      rw [heq] at hcolumns
      exact hcolumns
  | functionDifferences =>
    have hsingles := singles_meets hP z (steps z.x d c.fdFunctionStep)
      (List.finRange p) (Vector.replicate p 0) ha
    unfold hessian functionHessian
    dsimp only
    split
    · next heq =>
      rw [heq] at hsingles
      exact hsingles
    · next heq =>
      rw [heq] at hsingles
      exact doubles_meets hP _ _ _ _ _ hsingles

theorem unscaled_meets (z : Solution α n p) (d : Vector α p) (request : CovarianceRequest)
    (c : Config α) (ha : a.Meets Q) : (unscaled P z d request c a).2.Meets Q := by
  have hhessian := hessian_meets hP z d request.source c ha
  unfold unscaled
  split
  · split <;> exact ha
  · exact hhessian

end Covariance

theorem covariance_meets (hP : P.Counts Q) (z : Solution α n p) (d : Vector α p)
    (request : CovarianceRequest) (c : Config α) (ha : a.Meets Q) :
    (covariance P z d request c a).2.Meets Q := by
  have hunscaled := Covariance.unscaled_meets hP z d request c ha
  unfold covariance
  split
  · next heq =>
    rw [heq] at hunscaled
    exact hunscaled
  · next heq =>
    rw [heq] at hunscaled
    exact hunscaled

namespace Setup

variable {s : Setup α σ p} (hP : s.problem.Counts Q)
include hP

theorem finalPoint_meets {r : Run α σ n p} (hr : r.account.Meets Q) :
    (s.finalPoint r).1.account.Meets Q := by
  have hcall := hP.countedResiduals hr n r.search.iterate.x
  unfold finalPoint
  dsimp only
  split
  · exact hr
  · split <;> exact hcall

theorem finalJacobian_meets {r : Run α σ n p} (hr : r.account.Meets Q) (x : Vector α p) :
    (s.finalJacobian r x).1.account.Meets Q := by
  have hcall := hP.countedLinearization hr n x
  unfold finalJacobian
  split
  · exact hr
  · exact hcall

theorem finalCovariance_meets {r : Run α σ n p} (hr : r.account.Meets Q) (o : Outcome)
    (x : Vector α p) (v : Vector α n) :
    (s.finalCovariance o r x v).1.account.Meets Q := by
  have hjacobian := finalJacobian_meets hP hr x
  unfold finalCovariance
  split
  · exact hr
  · next request _ =>
    split
    · exact hr
    · split
      · next heq =>
        rw [heq] at hjacobian
        exact hjacobian
      · next r' j heq =>
        rw [heq] at hjacobian
        have hcall := covariance_meets hP (Linearized.solution ⟨x, v, j⟩) r'.search.iterate.d
          request s.config hjacobian
        dsimp only
        split <;> exact hcall

theorem finish_meets {r : Run α σ n p} (hr : r.account.Meets Q) (o : Outcome) :
    Q (s.finish r o).2 (s.finish r o).1.functionEvals (s.finish r o).1.gradientEvals :=
  finalCovariance_meets hP (finalPoint_meets hP hr) o _ _

theorem followed_meets {h : Head α σ n p} (hh : h.run.account.Meets Q) :
    (s.followed h).1.account.Meets Q := by
  have hjudged : (s.judged h).account.Meets Q := by
    rw [judged_account]
    exact hP.countedResiduals hh n (s.target h)
  have haccept : (s.accept h.gradient h.normal ((s.tried h).hessian h.normal)
      (s.judged h)).1.account.Meets Q := by
    have hcall := hP.countedLinearization hjudged n (s.judged h).search.iterate.x
    unfold accept
    dsimp only
    generalize s.problem.countedLinearization n (s.judged h).search.iterate.x
      (s.judged h).account = answer at hcall ⊢
    obtain ⟨answer, a'⟩ := answer
    cases answer with
    | error e => exact hcall
    | ok v => exact hP.stopRequested _ _ _ _ _ hcall
  unfold followed follow
  generalize s.judged h = judged at hjudged haccept ⊢
  split
  · exact hjudged
  · exact hjudged
  · exact hjudged
  · exact haccept
  · exact haccept
  · exact hjudged

theorem passes_meets {r₀ : Run α σ n p} (hr₀ : r₀.account.Meets Q) {l : List (Head α σ n p)}
    (hl : s.Passes r₀ l) : ∀ h ∈ l, h.run.account.Meets Q := by
  refine s.passes_invariant hl ?opening ?again ?next
  case opening =>
    rw [opening_account]
    exact hr₀
  case again =>
    intro h _ r _ _ hh _ hr
    have hfollowed := followed_meets hP hh
    rw [hr] at hfollowed
    exact hfollowed
  case next =>
    intro h _ r _ _ hh _ hr
    have hfollowed := followed_meets hP hh
    rw [hr] at hfollowed
    rw [opening_account]
    exact hfollowed

theorem ends_meets {h : Head α σ n p} {r : Run α σ n p} {o : Outcome}
    (hh : h.run.account.Meets Q) (hend : s.Ends h r o) : r.account.Meets Q := by
  cases hend with
  | limit =>
    obtain ⟨search, hgiven⟩ := giveUp_run (s.tried h)
    rw [hgiven, tried_eq]
    exact hh
  | finished _ hr =>
    have hfollowed := followed_meets hP hh
    rw [hr] at hfollowed
    exact hfollowed
  | exhausted _ hr =>
    have hfollowed := followed_meets hP hh
    rw [hr] at hfollowed
    exact hfollowed

theorem ran_meets {r₀ r : Run α σ n p} {l : List (Head α σ n p)} {o : Outcome}
    (hr₀ : r₀.account.Meets Q) (hran : s.Ran r₀ l r o) : r.account.Meets Q := by
  obtain ⟨hl, h, hh, hend⟩ := hran
  exact ends_meets hP (passes_meets hP hr₀ hl h (List.mem_of_mem_head? hh)) hend

end Setup

def Calls.made (calls : Calls α p) (mode : Mode) : Nat := calls.countP (·.1 = mode)

omit [Geometry α] in
theorem Problem.made_recorded (P : Problem α σ p) (x : Vector α p) (mode mode' : Mode)
    (state : σ × Calls α p) : Calls.made (P.recorded.evaluate x mode state).2.2 mode' =
      Calls.made state.2 mode' + if mode = mode' then 1 else 0 := by
  change List.countP _ (state.2 ++ [(mode, x)]) = _
  simp [Calls.made, List.countP_cons]

omit [Geometry α] in
theorem Problem.counts_recorded (P : Problem α σ p) : P.recorded.Counts fun state f g =>
    f = Calls.made state.2 .residuals + 1 ∧ g = Calls.made state.2 .jacobian where
  residuals x state f g h := by
    rw [P.made_recorded, P.made_recorded, h.1, h.2]
    exact ⟨rfl, rfl⟩
  jacobian x state f g h := by
    rw [P.made_recorded, P.made_recorded, h.1, h.2]
    exact ⟨rfl, rfl⟩
  stopRequested _ _ _ _ _ h := h

def FitError.OfInput : FitError α → Prop
  | .noParameters | .config _ | .nonFiniteStart _ | .invalidBounds _ => True
  | .dimension what _ _ => what = .fixedScale ∨ what = .lowerBounds ∨ what = .upperBounds
  | .tooFewResiduals _ _ | .initialEvaluation _ => False

theorem firstPoint_not_ofInput {x : Vector α p} {e : Evaluation α} {error : FitError α}
    (h : firstPoint x e = .error error) : ¬error.OfInput := by
  have hcases := firstPoint_cases x e
  rw [h] at hcases
  cases hcases <;> simp [FitError.OfInput]

theorem fit_not_ofInput {P : Problem α σ p} {initial : Vector α p}
    {lower upper : Option (Array (Scalar.Side α))} {c : Config α} {state : σ}
    {bounds : Option (Bounds α p)}
    (hinput : checkInput initial lower upper c = .ok bounds) {error : FitError α}
    (h : (fit P initial lower upper c state).1 = .error error) : ¬error.OfInput := by
  unfold fit at h
  rw [hinput] at h
  dsimp only at h
  split at h
  · cases h
    exact id
  · split at h
    · next hfirst =>
      cases h
      exact firstPoint_not_ofInput hfirst
    · cases h

def Accounted (calls : Calls α p) : Except (FitError α) (Report α p) → Prop
  | .ok report =>
    report.functionEvals = calls.made .residuals + 1 ∧ report.gradientEvals = calls.made .jacobian
  | .error e => calls.length ≤ 1 ∧ (e.OfInput → calls = [])

/-- The evaluations that are reported are all that were made. -/
theorem fit_accounted (P : Problem α σ p) (initial : Vector α p)
    (lower upper : Option (Array (Scalar.Side α))) (c : Config α) (state : σ) :
    Accounted (fitCalls P initial lower upper c state) (fit P initial lower upper c state).1 := by
  rw [fit_recorded P initial lower upper c (state, [])]
  unfold fitCalls
  change Accounted _ (fit P.recorded initial lower upper c (state, [])).1
  cases hinput : checkInput initial lower upper c with
  | error e =>
    unfold fit
    rw [hinput]
    exact ⟨Nat.zero_le 1, fun _ => rfl⟩
  | ok bounds =>
    obtain ⟨e, herror⟩ | ⟨n, r₀, hbegun, hstate⟩ := fit_begun (P := P.recorded) hinput (state, [])
    · have hnot := fit_not_ofInput hinput (congrArg Prod.fst herror)
      rw [herror]
      exact ⟨le_refl 1, fun he => absurd he hnot⟩
    · obtain ⟨l, hran⟩ := hbegun.ran
      obtain ⟨e, point, state', -, -, rfl⟩ := hbegun.first
      have hcounts : Problem.Counts (Setup.mk P.recorded bounds c).problem _ := P.counts_recorded
      rw [hbegun.fit_finish]
      refine Setup.finish_meets hcounts (Setup.ran_meets hcounts ?_ hran) _
      change state' = _ at hstate
      subst hstate
      exact ⟨rfl, rfl⟩

end LeastSquares
