import LeastSquares.Proofs.Checked
import LeastSquares.Proofs.Fit.Simulated

namespace LeastSquares

variable {α σ : Type} {n p : Nat}

namespace Evaluation

variable [Scalar α]

/-- `n` finite residuals and, where it is asked for, a finite Jacobian in `p` parameters. -/
structure Fits (e : Evaluation α) (n p : Nat) (mode : Mode) : Prop where
  size : e.residuals.size = n
  finite : e.residuals.all Scalar.isFinite = true
  jacobian : mode = .jacobian →
    ∃ j : Dense α n p, e.jacobian = some ⟨n, p, j⟩ ∧ j.all Scalar.isFinite = true

def residualFault? (n : Nat) (r : Array α) : Option Failure :=
  if r.size ≠ n then some (.residualCount n r.size)
  else if r.all Scalar.isFinite = false then some .residualsNotFinite
  else none

def jacobianFault? (n p : Nat) : Option (AnyDense α) → Option Failure
  | none => some .noJacobian
  | some j =>
    if ¬(j.rows = n ∧ j.cols = p) then some (.jacobianShape n p j.rows j.cols)
    else if j.entries.all Scalar.isFinite = false then some .jacobianNotFinite
    else none

/-- What is wrong with an answer that does not fit, its residuals first. -/
def fault? (e : Evaluation α) (n p : Nat) : Mode → Option Failure
  | .residuals => residualFault? n e.residuals
  | .jacobian => (residualFault? n e.residuals).or (jacobianFault? n p e.jacobian)

section

variable {r : Array α}

theorem residuals_of_no_fault (h : residualFault? n r = none) :
    ∃ hsize : r.size = n, r.all Scalar.isFinite = true ∧
      checkedResiduals n r = .ok ⟨r, hsize⟩ := by
  unfold residualFault? at h
  split at h
  · cases h
  next hsize =>
  split at h
  · cases h
  next hfinite =>
  have hsize := Decidable.not_not.mp hsize
  have hfinite := (Bool.not_eq_false _).mp hfinite
  refine ⟨hsize, hfinite, ?_⟩
  unfold checkedResiduals
  rw [dif_pos hsize, if_pos hfinite]

theorem checkedResiduals_of_fault {f : Failure} (h : residualFault? n r = some f) :
    checkedResiduals n r = .error f := by
  unfold residualFault? at h
  unfold checkedResiduals
  split at h
  · next hsize =>
    cases h
    exact dif_neg hsize
  next hsize =>
  rw [dif_pos (Decidable.not_not.mp hsize)]
  split at h
  · next hfinite =>
    cases h
    rw [if_neg (by rw [hfinite]; decide)]
  · cases h

end

section

variable {a : Option (AnyDense α)}

theorem jacobian_of_no_fault (h : jacobianFault? n p a = none) :
    ∃ j : Dense α n p, a = some ⟨n, p, j⟩ ∧ j.all Scalar.isFinite = true := by
  cases a with
  | none => cases h
  | some j =>
    unfold jacobianFault? at h
    dsimp only at h
    split at h
    · cases h
    next hshape =>
    split at h
    · cases h
    next hfinite =>
    obtain ⟨rfl, rfl⟩ := Decidable.not_not.mp hshape
    exact ⟨j.entries, rfl, (Bool.not_eq_false _).mp hfinite⟩

theorem checkedJacobian_of_fault {f : Failure} (h : jacobianFault? n p a = some f) :
    checkedJacobian n p a = .error f := by
  cases a with
  | none =>
    cases h
    rfl
  | some j =>
    unfold jacobianFault? at h
    dsimp only at h
    split at h
    · next hshape =>
      cases h
      have hnone : j.shaped? n p = none := dif_neg hshape
      unfold checkedJacobian
      dsimp only
      rw [hnone]
    next hshape =>
    obtain ⟨rfl, rfl⟩ := Decidable.not_not.mp hshape
    split at h
    · next hfinite =>
      cases h
      rw [checkedJacobian_some, if_neg (by rw [hfinite]; decide)]
    · cases h

end

variable {e : Evaluation α}

theorem fits_of_no_fault {mode : Mode} (h : e.fault? n p mode = none) : e.Fits n p mode := by
  cases mode with
  | residuals =>
    obtain ⟨hsize, hfinite, -⟩ := residuals_of_no_fault h
    exact ⟨hsize, hfinite, nofun⟩
  | jacobian =>
    obtain ⟨hresiduals, hjacobian⟩ := Option.or_eq_none_iff.mp h
    obtain ⟨hsize, hfinite, -⟩ := residuals_of_no_fault hresiduals
    exact ⟨hsize, hfinite, fun _ => jacobian_of_no_fault hjacobian⟩

theorem checked_of_fault {f : Failure} (h : e.fault? n p .jacobian = some f) :
    (checkedResiduals n e.residuals >>= fun r =>
      checkedJacobian n p e.jacobian >>= fun j => pure (r, j)) = .error f := by
  rcases Option.or_eq_some_iff.mp h with hresiduals | ⟨hresiduals, hjacobian⟩
  · rw [checkedResiduals_of_fault hresiduals]
    rfl
  · obtain ⟨hsize, -, hok⟩ := residuals_of_no_fault hresiduals
    rw [hok, checkedJacobian_of_fault hjacobian]
    rfl

end Evaluation

namespace Problem

variable [Scalar α]

def screened (P : Problem α σ p) (n : Nat) : Problem α σ p where
  evaluate x mode state :=
    match P.evaluate x mode state with
    | (.error f, state) => (.error f, state)
    | (.ok e, state) =>
      match e.fault? n p mode with
      | some f => (.error f, state)
      | none => (.ok e, state)
  stopRequested := P.stopRequested

variable (P : Problem α σ p)

theorem screened_fits {x : Vector α p} {mode : Mode} {state : σ} {e : Evaluation α}
    (h : ((P.screened n).evaluate x mode state).1 = .ok e) : e.Fits n p mode := by
  unfold screened at h
  dsimp only at h
  generalize P.evaluate x mode state = answer at h
  obtain ⟨answer, state'⟩ := answer
  cases answer with
  | error f => cases h
  | ok e' =>
    dsimp only at h
    cases hfault : e'.fault? n p mode with
    | some f =>
      rw [hfault] at h
      cases h
    | none =>
      rw [hfault] at h
      cases h
      exact Evaluation.fits_of_no_fault hfault

theorem screened_of_error {x : Vector α p} {mode : Mode} {state state' : σ} {f : Failure}
    (h : P.evaluate x mode state = (.error f, state')) :
    (P.screened n).evaluate x mode state = (.error f, state') := by
  unfold screened
  dsimp only
  rw [h]

theorem screened_of_fault {x : Vector α p} {mode : Mode} {state state' : σ} {e : Evaluation α}
    {f : Failure} (h : P.evaluate x mode state = (.ok e, state'))
    (hfault : e.fault? n p mode = some f) :
    (P.screened n).evaluate x mode state = (.error f, state') := by
  unfold screened
  dsimp only
  rw [h]
  dsimp only
  rw [hfault]

theorem screened_of_no_fault {x : Vector α p} {mode : Mode} {state state' : σ}
    {e : Evaluation α} (h : P.evaluate x mode state = (.ok e, state'))
    (hfault : e.fault? n p mode = none) :
    (P.screened n).evaluate x mode state = (.ok e, state') := by
  unfold screened
  dsimp only
  rw [h]
  dsimp only
  rw [hfault]

theorem simulates_screened : (P.screened n).Simulates P n id where
  residuals x t := by
    rcases hcall : P.evaluate x .residuals t with ⟨answer, t'⟩
    unfold residualsAt
    rw [id, hcall]
    cases answer with
    | error f =>
      rw [P.screened_of_error hcall]
      rfl
    | ok e =>
      cases hfault : e.fault? n p .residuals with
      | none =>
        rw [P.screened_of_no_fault hcall hfault]
        rfl
      | some f =>
        rw [P.screened_of_fault hcall hfault]
        exact congrArg (·, t') (Evaluation.checkedResiduals_of_fault hfault)
  linearization x t := by
    rcases hcall : P.evaluate x .jacobian t with ⟨answer, t'⟩
    unfold linearizationAt
    rw [id, hcall]
    cases answer with
    | error f =>
      rw [P.screened_of_error hcall]
      rfl
    | ok e =>
      cases hfault : e.fault? n p .jacobian with
      | none =>
        rw [P.screened_of_no_fault hcall hfault]
        rfl
      | some f =>
        rw [P.screened_of_fault hcall hfault]
        exact congrArg (·, t') (Evaluation.checked_of_fault hfault)
  stop _ _ _ := rfl

end Problem

namespace Setup

variable [Geometry α]

def screened (s : Setup α σ p) (n : Nat) : Setup α σ p := s.asking (s.problem.screened n)

variable (s : Setup α σ p)

theorem followed_screened (h : Head α σ n p) : (s.screened n).followed h = s.followed h :=
  (s.followed_asking h.gradient h.normal h.run s.problem.simulates_screened).symm

theorem finish_screened (r : Run α σ n p) (o : Outcome) :
    (s.screened n).finish r o = s.finish r o :=
  (s.finish_asking r s.problem.simulates_screened o).symm

variable {s} {h : Head α σ n p} {r₀ r : Run α σ n p} {l : List (Head α σ n p)} {o : Outcome}

theorem Passes.screened (hl : s.Passes r₀ l) : (s.screened n).Passes r₀ l := by
  induction hl with
  | opened => exact .opened
  | again _ hcontinues hr ih =>
    refine .again ih hcontinues ?_
    rw [followed_screened]
    exact hr
  | next _ hcontinues hr hleft ih =>
    refine .next ih hcontinues ?_ hleft
    rw [followed_screened]
    exact hr

theorem Ends.screened (hend : s.Ends h r o) : (s.screened n).Ends h r o := by
  cases hend with
  | limit hnot => exact .limit hnot
  | finished hcontinues hr =>
    refine .finished hcontinues ?_
    rw [followed_screened]
    exact hr
  | exhausted hcontinues hr hasking =>
    refine .exhausted hcontinues ?_ hasking
    rw [followed_screened]
    exact hr

theorem Ran.screened (hran : s.Ran r₀ l r o) : (s.screened n).Ran r₀ l r o := by
  obtain ⟨hl, h, hh, hend⟩ := hran
  exact ⟨hl.screened, h, hh, hend.screened⟩

end Setup

end LeastSquares
