import LeastSquares.Covariance

namespace LeastSquares

variable {α σ τ ι β γ : Type} {n p : Nat}

namespace Covariance

/-- A loop that calls the problem once at every turn, and ends with the first call to fail. -/
def collect (ask : ι → Account σ → Except Failure β × Account σ) (use : γ → ι → β → γ) :
    List ι → γ → Account σ → Except CovarianceFailure γ × Account σ
  | [], c, a => (.ok c, a)
  | i :: is, c, a =>
    match ask i a with
    | (.error _, a) => (.error .callbackFailed, a)
    | (.ok v, a) => collect ask use is (use c i v) a

section

variable {ask : ι → Account σ → Except Failure β × Account σ} (use : γ → ι → β → γ)
  (is : List ι) (c : γ)

theorem collect_invariant {Q : Account σ → Prop} (hask : ∀ i a, Q a → Q (ask i a).2)
    {a : Account σ} (ha : Q a) : Q (collect ask use is c a).2 := by
  induction is generalizing c a with
  | nil => exact ha
  | cons i is ih =>
    have hcall := hask i a ha
    rw [collect]
    generalize ask i a = answer at hcall ⊢
    obtain ⟨answer, a'⟩ := answer
    cases answer with
    | error e => exact hcall
    | ok v => exact ih _ hcall

theorem collect_map {f : Account τ → Account σ}
    {ask' : ι → Account τ → Except Failure β × Account τ}
    (hask : ∀ i a, ask i (f a) = (ask' i a).map id f) (a : Account τ) :
    collect ask use is c (f a) = (collect ask' use is c a).map id f := by
  induction is generalizing c a with
  | nil => rfl
  | cons i is ih =>
    rw [collect, collect, hask]
    generalize ask' i a = answer
    obtain ⟨answer, a'⟩ := answer
    cases answer with
    | error e => rfl
    | ok v => exact ih _ a'

/-- The calls that succeed, and what they answer, are known before they are made. -/
structure Answers (ask : ι → Account σ → Except Failure β × Account σ) (good : ι → Bool)
    (v : ι → β) : Prop where
  ok : ∀ i a, good i = true → (ask i a).1 = .ok (v i)
  error : ∀ i a, good i = false → ∃ e, (ask i a).1 = .error e

theorem collect_answers {good : ι → Bool} {v : ι → β} (h : Answers ask good v) (a : Account σ) :
    (collect ask use is c a).1 =
      if is.all good then .ok (is.foldl (fun c i => use c i (v i)) c)
      else .error .callbackFailed := by
  induction is generalizing c a with
  | nil => rfl
  | cons i is ih =>
    rw [collect, List.all_cons, List.foldl_cons]
    cases hgood : good i with
    | true =>
      have hcall := h.ok i a hgood
      generalize ask i a = answer at hcall ⊢
      obtain ⟨answer, a'⟩ := answer
      obtain rfl : answer = .ok (v i) := hcall
      exact ih _ a'
    | false =>
      obtain ⟨e, hcall⟩ := h.error i a hgood
      generalize ask i a = answer at hcall ⊢
      obtain ⟨answer, a'⟩ := answer
      obtain rfl : answer = .error e := hcall
      rfl

end

section

variable [Geometry α] (P : Problem α σ p) (z : Solution α n p)

theorem moved_set (x h : Vector α p) (i : Fin p) : (moved x h i).set i x[i] i.isLt = x := by
  simp [moved]

theorem moved_moved_set (x h : Vector α p) (i j : Fin p) :
    ((moved (moved x h i) h j).set i x[i] i.isLt).set j x[j] j.isLt = x := by
  apply Vector.ext
  intro k hk
  by_cases hj : (j : Nat) = k
  · subst hj
    rw [Vector.getElem_set_self]
    rfl
  rw [Vector.getElem_set_ne _ _ hj]
  by_cases hi : (i : Nat) = k
  · subst hi
    rw [Vector.getElem_set_self]
    rfl
  · rw [Vector.getElem_set_ne _ _ hi, moved, Vector.getElem_set_ne _ _ hj, moved,
      Vector.getElem_set_ne _ _ hi]

theorem gradientColumns_eq (h : Vector α p) (is : List (Fin p)) (c : Vector (Vector α p) p)
    (a : Account σ) : gradientColumns P z h is z.x c a =
      (collect (fun i => P.countedLinearization n (moved z.x h i))
        (fun c i v => c.set i ((v.2.transposeMulVec v.1 - z.gradient).map (· / h[i])) i.isLt)
        is c a).map (Except.map Dense.mk) id := by
  induction is generalizing c a with
  | nil => rfl
  | cons i is ih =>
    rw [gradientColumns, ← moved, moved_set, collect]
    generalize P.countedLinearization n (moved z.x h i) a = answer
    obtain ⟨answer, a'⟩ := answer
    cases answer with
    | error e => rfl
    | ok v => exact ih _ a'

theorem singles_eq (h : Vector α p) (is : List (Fin p)) (f : Vector α p) (a : Account σ) :
    singles P z h is z.x f a = collect (fun i => P.countedResiduals n (moved z.x h i))
      (fun f i r => f.set i (objective r) i.isLt) is f a := by
  induction is generalizing f a with
  | nil => rfl
  | cons i is ih =>
    rw [singles, ← moved, moved_set, collect]
    generalize P.countedResiduals n (moved z.x h i) a = answer
    obtain ⟨answer, a'⟩ := answer
    cases answer with
    | error e => rfl
    | ok r => exact ih _ a'

theorem doubles_eq (h f : Vector α p) (is : List (Fin p × Fin p)) (m : Symmetric α p)
    (a : Account σ) : doubles P z h f is z.x m a =
      collect (fun i => P.countedResiduals n (moved (moved z.x h i.1) h i.2))
        (fun m i r => m.set i.1 i.2
          ((objective r - f[i.1] - f[i.2] + z.f) / (h[i.1] * h[i.2]))) is m a := by
  induction is generalizing m a with
  | nil => rfl
  | cons i is ih =>
    rw [doubles, moved_moved_set, collect]
    generalize P.countedResiduals n (moved (moved z.x h i.1) h i.2) a = answer
    obtain ⟨answer, a'⟩ := answer
    cases answer with
    | error e => rfl
    | ok r => exact ih _ a'

variable (d : Vector α p) (c : Config α) (a : Account σ)

theorem gradientHessian_fst : (gradientHessian P z d c a).1 =
    (gradientColumns P z (steps z.x d c.fdGradientStep) (List.finRange p) z.x
      (Vector.replicate p (Vector.replicate p 0)) a).1.map
        fun m => .ofDense ((m.add m.transpose).scale (1 / 2)) := by
  unfold gradientHessian
  generalize gradientColumns P z _ _ _ _ a = answer
  obtain ⟨answer, a'⟩ := answer
  cases answer <;> rfl

theorem functionHessian_fst : (functionHessian P z d c a).1 =
    (singles P z (steps z.x d c.fdFunctionStep) (List.finRange p) z.x
      (Vector.replicate p 0) a).1 >>= fun f =>
        (doubles P z (steps z.x d c.fdFunctionStep) f (pairs p) z.x (.zeros p)
          (singles P z (steps z.x d c.fdFunctionStep) (List.finRange p) z.x
            (Vector.replicate p 0) a).2).1 := by
  unfold functionHessian
  dsimp only
  generalize singles P z _ _ _ _ a = answer
  obtain ⟨answer, a'⟩ := answer
  cases answer <;> rfl

theorem unscaled_inverseNormal {m : Symmetric α p}
    (hm : (z.jacobian.pivotedQr 0).normalInverse = .ok m) (source : HessianSource) :
    (unscaled P z d ⟨.inverseNormal, source⟩ c a).1 = .ok m.toDense := by
  unfold unscaled
  dsimp only
  rw [hm]

theorem unscaled_inverseHessian (source : HessianSource) :
    (unscaled P z d ⟨.inverseHessian, source⟩ c a).1 =
      (hessian P z d source c a).1 >>= inverse := by
  unfold unscaled
  generalize hessian P z d source c a = answer
  obtain ⟨answer, a'⟩ := answer
  cases answer with
  | error e => rfl
  | ok H => cases h : inverse H <;> simp [bind, Except.bind, pure, Except.pure, h]

theorem unscaled_sandwich (source : HessianSource) :
    (unscaled P z d ⟨.sandwich, source⟩ c a).1 =
      (hessian P z d source c a).1 >>= inverse >>=
        fun m => .ok ((m.mul (z.jacobian.transpose.mul z.jacobian)).mul m) := rfl

end

end Covariance

theorem covariance_fst [Geometry α] (P : Problem α σ p) (z : Solution α n p) (d : Vector α p)
    (request : CovarianceRequest) (c : Config α) (a : Account σ) :
    (covariance P z d request c a).1 =
      match (Covariance.unscaled P z d request c a).1 with
      | .error e => .notComputed e
      | .ok m => .computed (m.scale (Covariance.factor z)) := by
  unfold covariance
  generalize Covariance.unscaled P z d request c a = answer
  obtain ⟨answer, a'⟩ := answer
  cases answer <;> rfl

end LeastSquares
