import LeastSquares.Proofs.Covariance.Differences

namespace LeastSquares

variable {α σ ι β γ : Type} {n p : Nat}

namespace Covariance

/-- One call for each of a list, in its order, of which none fails. The answers are `v`. -/
inductive Asked (ask : ι → Account σ → Except Failure β × Account σ) (v : ι → β) :
    List ι → Account σ → Account σ → Prop
  | nil (a : Account σ) : Asked ask v [] a a
  | cons {i : ι} {is : List ι} {a a' a'' : Account σ} (hcall : ask i a = (.ok (v i), a'))
      (hrest : Asked ask v is a' a'') : Asked ask v (i :: is) a a''

/-- The calls for a list, in its order, up to one that fails. It is the last. -/
inductive Fails (ask : ι → Account σ → Except Failure β × Account σ) :
    List ι → Account σ → Account σ → Prop
  | here {i : ι} {is : List ι} {a a' : Account σ} {e : Failure} (hcall : ask i a = (.error e, a')) :
      Fails ask (i :: is) a a'
  | later {i : ι} {is : List ι} {a a' a'' : Account σ} {v : β} (hcall : ask i a = (.ok v, a'))
      (hrest : Fails ask is a' a'') : Fails ask (i :: is) a a''

section

variable {ask : ι → Account σ → Except Failure β × Account σ} {v w : ι → β} {is : List ι}
  {a a' : Account σ}

theorem Asked.congr (h : Asked ask v is a a') (hvw : ∀ i ∈ is, v i = w i) :
    Asked ask w is a a' := by
  induction h with
  | nil a => exact .nil a
  | cons hcall _ ih =>
    rw [hvw _ List.mem_cons_self] at hcall
    exact .cons hcall (ih fun i hi => hvw i (List.mem_cons_of_mem _ hi))

theorem asked_or_fails [DecidableEq ι] (ask : ι → Account σ → Except Failure β × Account σ) (b : β)
    (hnodup : is.Nodup) (a : Account σ) :
    (∃ v a', Asked ask v is a a') ∨ ∃ a', Fails ask is a a' := by
  induction is generalizing a with
  | nil => exact .inl ⟨fun _ => b, a, .nil a⟩
  | cons i is ih =>
    obtain ⟨hi, hnodup⟩ := List.nodup_cons.mp hnodup
    rcases hcall : ask i a with ⟨_ | answer, a'⟩
    · exact .inr ⟨a', .here hcall⟩
    rcases ih hnodup a' with ⟨v, a'', hasked⟩ | ⟨a'', hfails⟩
    · refine .inl ⟨Function.update v i answer, a'', .cons ?_ (hasked.congr fun j hj => ?_)⟩
      · rw [hcall, Function.update_self]
      · rw [Function.update_of_ne (ne_of_mem_of_not_mem hj hi)]
    · exact .inr ⟨a'', .later hcall hfails⟩

variable (use : γ → ι → β → γ) (c : γ)

theorem Asked.collect_eq (h : Asked ask v is a a') :
    collect ask use is c a = (.ok (is.foldl (fun c i => use c i (v i)) c), a') := by
  induction h generalizing c with
  | nil a => rfl
  | cons hcall _ ih =>
    rw [collect, hcall]
    exact ih _

theorem Fails.collect_eq (h : Fails ask is a a') :
    collect ask use is c a = (.error .callbackFailed, a') := by
  induction h generalizing c with
  | here hcall => rw [collect, hcall]
  | later hcall _ ih =>
    rw [collect, hcall]
    exact ih _

end

theorem nodup_pairs (p : Nat) : (pairs p).Nodup := by
  refine List.nodup_flatMap.mpr ⟨fun i _ => ?_, ?_⟩
  · exact (nodup_upTo i).map fun j k h => (Prod.mk.inj h).2
  · refine (List.nodup_finRange p).imp fun {i j} hij k hi hj => ?_
    obtain ⟨_, -, rfl⟩ := List.mem_map.mp hi
    obtain ⟨_, -, heq⟩ := List.mem_map.mp hj
    exact hij (Prod.mk.inj heq).1.symm

section

variable [Geometry α] {P : Problem α σ p} {z : Solution α n p} {d : Vector α p} {c : Config α}
  {a a' a'' : Account σ}

theorem gradientHessian_of_fails
    (h : Fails (fun i => P.countedLinearization n (moved z.x (steps z.x d c.fdGradientStep) i))
      (List.finRange p) a a') : gradientHessian P z d c a = (.error .callbackFailed, a') := by
  unfold gradientHessian
  rw [gradientColumns_eq, h.collect_eq]
  rfl

theorem gradientHessian_of_asked {v : Fin p → Vector α n × Dense α n p}
    (h : Asked (fun i => P.countedLinearization n (moved z.x (steps z.x d c.fdGradientStep) i)) v
      (List.finRange p) a a') {m : Dense α p p}
    (hm : m = ⟨Vector.ofFn fun i => ((v i).2.transposeMulVec (v i).1 - z.gradient).map
      (· / (steps z.x d c.fdGradientStep)[i])⟩) :
    gradientHessian P z d c a = (.ok (.ofDense ((m.add m.transpose).scale (1 / 2))), a') := by
  subst hm
  unfold gradientHessian
  rw [gradientColumns_eq, h.collect_eq, foldl_set_finRange]
  rfl

theorem functionHessian_of_singles_fail
    (h : Fails (fun i => P.countedResiduals n (moved z.x (steps z.x d c.fdFunctionStep) i))
      (List.finRange p) a a') : functionHessian P z d c a = (.error .callbackFailed, a') := by
  unfold functionHessian
  dsimp only
  rw [singles_eq, h.collect_eq]

section

variable {v : Fin p → Vector α n} {w : Fin p × Fin p → Vector α n}
  (hsingles : Asked
    (fun i => P.countedResiduals n (moved z.x (steps z.x d c.fdFunctionStep) i)) v
    (List.finRange p) a a')
include hsingles

theorem functionHessian_of_doubles_fail
    (h : Fails (fun i : Fin p × Fin p => P.countedResiduals n
      (moved (moved z.x (steps z.x d c.fdFunctionStep) i.1) (steps z.x d c.fdFunctionStep) i.2))
      (pairs p) a' a'') : functionHessian P z d c a = (.error .callbackFailed, a'') := by
  unfold functionHessian
  dsimp only
  rw [singles_eq, hsingles.collect_eq]
  dsimp only
  rw [doubles_eq, h.collect_eq]

theorem functionHessian_of_asked
    (h : Asked (fun i : Fin p × Fin p => P.countedResiduals n
      (moved (moved z.x (steps z.x d c.fdFunctionStep) i.1) (steps z.x d c.fdFunctionStep) i.2))
      w (pairs p) a' a'') :
    functionHessian P z d c a =
      (.ok ((pairs p).foldl (fun m i => m.set i.1 i.2
        ((objective (w i) - objective (v i.1) - objective (v i.2) + z.f) /
          ((steps z.x d c.fdFunctionStep)[i.1] * (steps z.x d c.fdFunctionStep)[i.2])))
        (.zeros p)), a'') := by
  unfold functionHessian
  dsimp only
  rw [singles_eq, hsingles.collect_eq, foldl_set_finRange]
  dsimp only
  have hsingle (i : Fin p) : (Vector.ofFn fun i => objective (v i))[i] = objective (v i) :=
    Vector.getElem_ofFn _
  rw [doubles_eq, h.collect_eq]
  simp only [hsingle]

end

variable {source : HessianSource} {kind : CovarianceKind}

theorem unscaled_snd (hkind : kind ≠ .inverseNormal) :
    (unscaled P z d ⟨kind, source⟩ c a).2 = (hessian P z d source c a).2 := by
  unfold unscaled
  cases kind with
  | inverseNormal => exact absurd rfl hkind
  | inverseHessian | sandwich => rfl

theorem covariance_snd (request : CovarianceRequest) :
    (covariance P z d request c a).2 = (unscaled P z d request c a).2 := by
  unfold covariance
  generalize unscaled P z d request c a = answer
  obtain ⟨answer, a'⟩ := answer
  cases answer <;> rfl

/-- What a request makes of the inverse of the Hessian, but for the scale. -/
def ofInverse (z : Solution α n p) (m : Dense α p p) : CovarianceKind → Dense α p p
  | .sandwich => (m.mul (z.jacobian.transpose.mul z.jacobian)).mul m
  | _ => m

def outcome (z : Solution α n p) (kind : CovarianceKind) :
    Except CovarianceFailure (Dense α p p) → CovarianceStatus α p
  | .error e => .notComputed e
  | .ok m => .computed ((ofInverse z m kind).scale (factor z))

theorem covariance_of_hessian {answer : Except CovarianceFailure (Symmetric α p)}
    (hkind : kind ≠ .inverseNormal) (h : hessian P z d source c a = (answer, a')) :
    covariance P z d ⟨kind, source⟩ c a = (outcome z kind (answer >>= inverse), a') := by
  refine Prod.ext ?_ ((covariance_snd _).trans ((unscaled_snd hkind).trans (congrArg Prod.snd h)))
  rw [covariance_fst]
  cases kind with
  | inverseNormal => exact absurd rfl hkind
  | inverseHessian =>
    rw [unscaled_inverseHessian, h]
    rfl
  | sandwich =>
    rw [unscaled_sandwich, h]
    dsimp only
    cases answer >>= inverse <;> rfl

theorem covariance_inverseNormal_of_error {e : LinearError}
    (h : (z.jacobian.pivotedQr 0).normalInverse = .error e) :
    covariance P z d ⟨.inverseNormal, source⟩ c a = (.notComputed .rankDeficientJacobian, a) := by
  unfold covariance unscaled
  dsimp only
  rw [h]

theorem covariance_inverseNormal_of_ok {m : Symmetric α p}
    (h : (z.jacobian.pivotedQr 0).normalInverse = .ok m) :
    covariance P z d ⟨.inverseNormal, source⟩ c a =
      (.computed (m.toDense.scale (factor z)), a) := by
  unfold covariance unscaled
  dsimp only
  rw [h]

end

end Covariance

end LeastSquares
