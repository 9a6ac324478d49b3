import LeastSquares.Account

namespace LeastSquares

variable {α σ : Type} {n p : Nat} [Scalar α]

theorem checkedResiduals_toArray (v : Vector α n) : checkedResiduals n v.toArray =
    if v.all Scalar.isFinite then .ok v else .error .residualsNotFinite := by
  unfold checkedResiduals
  rw [dif_pos v.size_toArray]
  rfl

theorem checkedJacobian_some (j : Dense α n p) : checkedJacobian n p (some ⟨n, p, j⟩) =
    if j.all Scalar.isFinite then .ok j else .error .jacobianNotFinite := by
  have hshape : (⟨n, p, j⟩ : AnyDense α).shaped? n p = some j := by
    rw [AnyDense.shaped?, dif_pos ⟨rfl, rfl⟩]
  unfold checkedJacobian
  dsimp only
  rw [hshape]

namespace Problem

variable {P : Problem α σ p} {x : Vector α p} {v : Vector α n} {a : Account σ}

theorem countedResiduals_of_evaluate {j : Option (AnyDense α)}
    (h : (P.evaluate x .residuals a.state).1 = .ok ⟨v.toArray, j⟩) :
    (P.countedResiduals n x a).1 =
      if v.all Scalar.isFinite then .ok v else .error .residualsNotFinite := by
  change (P.evaluate x .residuals a.state).1 >>= _ = _
  rw [h]
  exact checkedResiduals_toArray v

theorem countedLinearization_of_evaluate {j : Dense α n p}
    (h : (P.evaluate x .jacobian a.state).1 = .ok ⟨v.toArray, some ⟨n, p, j⟩⟩) :
    (P.countedLinearization n x a).1 =
      if v.all Scalar.isFinite then
        if j.all Scalar.isFinite then .ok (v, j) else .error .jacobianNotFinite
      else .error .residualsNotFinite := by
  change (P.evaluate x .jacobian a.state).1 >>= _ = _
  rw [h]
  change (checkedResiduals n v.toArray >>= fun r =>
    checkedJacobian n p (some ⟨n, p, j⟩) >>= fun j => pure (r, j)) = _
  rw [checkedResiduals_toArray, checkedJacobian_some]
  split
  · split <;> rfl
  · rfl

end Problem

end LeastSquares
