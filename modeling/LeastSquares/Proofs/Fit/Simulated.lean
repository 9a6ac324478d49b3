import LeastSquares.Proofs.Covariance.Calls
import LeastSquares.Proofs.Fit.Trace

namespace LeastSquares

variable {α σ τ : Type} {n p : Nat}

def Account.map (φ : σ → τ) (a : Account σ) : Account τ := { a with state := φ a.state }

namespace Run

def map (φ : σ → τ) (r : Run α σ n p) : Run α τ n p := { r with account := r.account.map φ }

variable (φ : σ → τ) (r : Run α σ n p)

@[simp]
theorem map_search : (r.map φ).search = r.search := rfl

@[simp]
theorem map_base : (r.map φ).base = r.base := rfl

theorem map_best : (r.map φ).best = r.best := rfl

theorem map_previous : (r.map φ).previous = r.previous := rfl

theorem map_rankWarning (q : PivotedQr α n p) :
    (r.map φ).rankWarning q = (r.rankWarning q).map φ := by
  unfold rankWarning
  cases q.status <;> rfl

variable [Geometry α]

@[simp]
theorem map_modelHessian (normal : Symmetric α p) (m : Model) :
    (r.map φ).modelHessian normal m = r.modelHessian normal m := by
  cases m <;> rfl

@[simp]
theorem map_hessian (normal : Symmetric α p) : (r.map φ).hessian normal = r.hessian normal :=
  map_modelHessian φ r normal _

theorem map_learn (c : Config α) (g : Vector α p) (a : Accepted α n p) :
    learn c g (r.map φ) a = (learn c g r a).map φ := by
  unfold learn
  simp only [map_search, map_base, map_modelHessian]
  split <;> split <;> rfl

theorem map_beginIteration (c : Config α) (g : Vector α p) :
    (r.map φ).beginIteration c g = (r.beginIteration c g).map φ := by
  unfold beginIteration
  rw [map_previous]
  cases r.previous with
  | none => rfl
  | some a =>
    dsimp only
    rw [map_learn]
    rfl

end Run

/-- To a fit with `n` residuals the problem `Q` answers as `P` does, which sees of a state no more
than its image. -/
structure Problem.Simulates [Scalar α] (Q : Problem α τ p) (P : Problem α σ p) (n : Nat)
    (φ : τ → σ) : Prop where
  residuals : ∀ x t, P.residualsAt n x (φ t) = (Q.residualsAt n x t).map id φ
  linearization : ∀ x t, P.linearizationAt n x (φ t) = (Q.linearizationAt n x t).map id φ
  stop : ∀ k x t, P.stopRequested k x (φ t) = (Q.stopRequested k x t).map id φ

namespace Problem.Simulates

variable [Scalar α] {Q : Problem α τ p} {P : Problem α σ p} {φ : τ → σ}
  (hQ : Q.Simulates P n φ) (x : Vector α p) (a : Account τ)
include hQ

theorem countedResiduals : P.countedResiduals n x (a.map φ) =
    (Q.countedResiduals n x a).map id (Account.map φ) := by
  unfold Problem.countedResiduals
  dsimp only [Account.map]
  rw [hQ.residuals]
  rfl

theorem countedLinearization : P.countedLinearization n x (a.map φ) =
    (Q.countedLinearization n x a).map id (Account.map φ) := by
  unfold Problem.countedLinearization
  dsimp only [Account.map]
  rw [hQ.linearization]
  rfl

end Problem.Simulates

namespace Covariance

variable [Geometry α] {Q : Problem α τ p} {P : Problem α σ p} {φ : τ → σ}
  (hQ : Q.Simulates P n φ) (z : Solution α n p) (a : Account τ)
include hQ

theorem gradientColumns_simulated (h : Vector α p) (is : List (Fin p))
    (c : Vector (Vector α p) p) : gradientColumns P z h is z.x c (a.map φ) =
      (gradientColumns Q z h is z.x c a).map id (Account.map φ) := by
  rw [gradientColumns_eq, gradientColumns_eq,
    collect_map _ is c fun i a => hQ.countedLinearization (moved z.x h i) a]
  rfl

theorem singles_simulated (h : Vector α p) (is : List (Fin p)) (f : Vector α p) :
    singles P z h is z.x f (a.map φ) =
      (singles Q z h is z.x f a).map id (Account.map φ) := by
  rw [singles_eq, singles_eq]
  exact collect_map _ is f (fun i a => hQ.countedResiduals (moved z.x h i) a) a

theorem doubles_simulated (h f : Vector α p) (ps : List (Fin p × Fin p)) (m : Symmetric α p) :
    doubles P z h f ps z.x m (a.map φ) =
      (doubles Q z h f ps z.x m a).map id (Account.map φ) := by
  rw [doubles_eq, doubles_eq]
  exact collect_map _ ps m
    (fun i a => hQ.countedResiduals (moved (moved z.x h i.1) h i.2) a) a

theorem hessian_simulated (d : Vector α p) (source : HessianSource) (c : Config α) :
    hessian P z d source c (a.map φ) =
      (hessian Q z d source c a).map id (Account.map φ) := by
  cases source with
  | gradientDifferences =>
    unfold hessian gradientHessian
    dsimp only
    rw [gradientColumns_simulated hQ]
    generalize gradientColumns Q z _ _ _ _ a = answer
    obtain ⟨answer, a'⟩ := answer
    cases answer <;> rfl
  | functionDifferences =>
    unfold hessian functionHessian
    dsimp only
    rw [singles_simulated hQ]
    generalize singles Q z _ _ _ _ a = answer
    obtain ⟨answer, a'⟩ := answer
    cases answer with
    | error e => rfl
    | ok f => exact doubles_simulated hQ z a' _ f _ _

theorem unscaled_simulated (d : Vector α p) (request : CovarianceRequest) (c : Config α) :
    unscaled P z d request c (a.map φ) =
      (unscaled Q z d request c a).map id (Account.map φ) := by
  unfold unscaled
  cases request.kind with
  | inverseNormal =>
    dsimp only
    cases (z.jacobian.pivotedQr 0).normalInverse <;> rfl
  | sandwich =>
    dsimp only
    rw [hessian_simulated hQ]
    rfl
  | inverseHessian =>
    dsimp only
    rw [hessian_simulated hQ]
    rfl

end Covariance

theorem covariance_simulated [Geometry α] {Q : Problem α τ p} {P : Problem α σ p} {φ : τ → σ}
    (hQ : Q.Simulates P n φ) (z : Solution α n p) (a : Account τ) (d : Vector α p)
    (request : CovarianceRequest) (c : Config α) :
    covariance P z d request c (a.map φ) =
      (covariance Q z d request c a).map id (Account.map φ) := by
  unfold covariance
  rw [Covariance.unscaled_simulated hQ]
  generalize Covariance.unscaled Q z d request c a = answer
  obtain ⟨answer, a'⟩ := answer
  cases answer <;> rfl

namespace Setup

def asking [Scalar α] (s : Setup α σ p) (Q : Problem α τ p) : Setup α τ p where
  problem := Q
  bounds := s.bounds
  config := s.config

variable [Geometry α] (s : Setup α σ p) {Q : Problem α τ p} {φ : τ → σ}

section

variable (g : Vector α p) (normal h : Symmetric α p) (r : Run α τ n p)

theorem computeStep_asking : s.computeStep g normal (r.map φ) =
    ((s.asking Q).computeStep g normal r).map φ := by
  have hseen := s.tried_eq ⟨g, normal, r.map φ⟩
  have hasking := (s.asking Q).tried_eq ⟨g, normal, r⟩
  have hremembered : remembered (r.map φ) = remembered r := rfl
  unfold clamped unclamped at hseen hasking
  dsimp only at hseen hasking
  rw [hremembered, Run.map_hessian] at hseen
  unfold tried at hseen hasking
  rw [hseen, hasking]
  rfl

theorem judge_asking : s.judge g h (r.map φ) = ((s.asking Q).judge g h r).map φ := by
  by_cases hprobe : (assess s.config r.search).verdict = .probe
  · have hseen : s.judge g h (r.map φ) = _ := if_pos hprobe
    have hasking : (s.asking Q).judge g h r = _ := if_pos hprobe
    rw [hseen, hasking]
    rfl
  · have hseen : s.judge g h (r.map φ) = _ := if_neg hprobe
    have hasking : (s.asking Q).judge g h r = _ := if_neg hprobe
    rw [hseen, hasking]
    rfl

variable (hQ : Q.Simulates s.problem n φ)
include hQ

theorem evaluateTrial_asking :
    s.evaluateTrial (r.map φ) = ((s.asking Q).evaluateTrial r).map φ := by
  unfold evaluateTrial
  dsimp only [Run.map, asking]
  rw [hQ.countedResiduals]
  generalize Q.countedResiduals n r.search.iterate.x r.account = answer
  obtain ⟨answer, a⟩ := answer
  cases answer with
  | error e => rfl
  | ok v =>
    dsimp only [Prod.map, id, keepBest, setTrialValue]
    split
    · split <;> rfl
    · rfl

theorem accept_asking : s.accept g normal h (r.map φ) =
    ((s.asking Q).accept g normal h r).map (Run.map φ) id := by
  unfold accept
  dsimp only [Run.map, asking]
  rw [hQ.countedLinearization]
  generalize Q.countedLinearization n r.search.iterate.x r.account = answer
  obtain ⟨answer, a⟩ := answer
  cases answer with
  | error e => rfl
  | ok v =>
    have hstop := hQ.stop r.iterations r.search.iterate.x a.state
    exact congrArg (fun answer : Bool × σ => (Run.mk ⟨answer.2, _, _⟩ _ _ _ _ _ _ _ _ _ _,
      if answer.1 then Next.finished .userStop else .accepted)) hstop

theorem follow_asking (model : Model) : s.follow g normal h model (r.map φ) =
    ((s.asking Q).follow g normal h model r).map (Run.map φ) id := by
  unfold follow
  rw [Run.map_search]
  split
  · rfl
  · rfl
  · rfl
  · exact s.accept_asking g normal h r hQ
  · exact s.accept_asking g normal h r hQ
  · rfl

theorem followed_asking : s.followed ⟨g, normal, r.map φ⟩ =
    ((s.asking Q).followed ⟨g, normal, r⟩).map (Run.map φ) id := by
  unfold followed judged evaluated tried
  dsimp only
  rw [s.computeStep_asking (Q := Q), s.evaluateTrial_asking _ hQ, Run.map_hessian,
    s.judge_asking (Q := Q), s.follow_asking _ _ _ _ hQ]
  rfl

theorem stepLoop_asking : s.stepLoop g normal (r.map φ) =
    ((s.asking Q).stepLoop g normal r).map (Run.map φ) id := by
  induction r using stepLoop.induct (s.asking Q) g normal with
  | case1 r hlimit =>
    rw [stepLoop_eq, stepLoop_eq, if_pos hlimit]
    refine (if_pos hlimit).trans ?_
    unfold tried
    dsimp only
    rw [s.computeStep_asking (Q := Q)]
    unfold giveUp
    dsimp only
    rw [Run.map_best, Run.map_search]
    split <;> rfl
  | case2 r hlimit r' hr ih =>
    change (s.asking Q).followed ⟨g, normal, r⟩ = (r', .again) at hr
    rw [stepLoop_eq, stepLoop_eq, if_neg hlimit, s.followed_asking _ _ _ hQ, hr]
    exact (if_neg hlimit).trans ih
  | case3 r hlimit r' hr =>
    change (s.asking Q).followed ⟨g, normal, r⟩ = (r', .accepted) at hr
    rw [stepLoop_eq, stepLoop_eq, if_neg hlimit, s.followed_asking _ _ _ hQ, hr]
    exact if_neg hlimit
  | case4 r hlimit r' o hr =>
    change (s.asking Q).followed ⟨g, normal, r⟩ = (r', .finished o) at hr
    rw [stepLoop_eq, stepLoop_eq, if_neg hlimit, s.followed_asking _ _ _ hQ, hr]
    exact if_neg hlimit

end

variable (r : Run α τ n p) (hQ : Q.Simulates s.problem n φ)
include hQ

theorem iterate_asking : s.iterate (r.map φ) =
    ((s.asking Q).iterate r).map (Run.map φ) id := by
  have hrank := Run.map_rankWarning φ { r with iterations := r.iterations + 1 }
    (r.base.jacobian.pivotedQr 0)
  have hopening : s.opening (r.map φ) = ⟨((s.asking Q).opening r).gradient,
      ((s.asking Q).opening r).normal, ((s.asking Q).opening r).run.map φ⟩ := by
    refine congrArg (Head.mk _ _) ?_
    exact (congrArg _ hrank).trans (Run.map_beginIteration φ _ s.config r.base.gradient)
  rw [iterate_eq, iterate_eq, hopening]
  exact s.stepLoop_asking _ _ _ hQ

theorem runFor_asking (k : Nat) : s.runFor k (r.map φ) =
    ((s.asking Q).runFor k r).map (Run.map φ) id := by
  induction k generalizing r with
  | zero => rfl
  | succ k ih =>
    rw [runFor, runFor, s.iterate_asking r hQ]
    generalize (s.asking Q).iterate r = answer
    obtain ⟨r', o⟩ := answer
    cases o with
    | none => exact ih r'
    | some o => rfl

theorem finalPoint_asking : s.finalPoint (r.map φ) =
    ((s.asking Q).finalPoint r).map (Run.map φ) id := by
  have hknown : knownResiduals? (r.map φ) r.search.iterate.x =
      knownResiduals? r r.search.iterate.x := rfl
  unfold finalPoint
  dsimp only
  rw [Run.map_search, hknown]
  cases knownResiduals? r r.search.iterate.x with
  | some v => rfl
  | none =>
    dsimp only [Run.map, asking]
    rw [hQ.countedResiduals]
    generalize Q.countedResiduals n r.search.iterate.x r.account = answer
    obtain ⟨answer, a⟩ := answer
    cases answer <;> rfl

theorem finalJacobian_asking (x : Vector α p) : s.finalJacobian (r.map φ) x =
    ((s.asking Q).finalJacobian r x).map (Run.map φ) id := by
  unfold finalJacobian
  rw [Run.map_base]
  split
  · rfl
  · dsimp only [Run.map, asking]
    rw [hQ.countedLinearization]
    rfl

theorem finalCovariance_asking (o : Outcome) (x : Vector α p) (v : Vector α n) :
    s.finalCovariance o (r.map φ) x v =
      ((s.asking Q).finalCovariance o r x v).map (Run.map φ) id := by
  have hconfig : (s.asking Q).config = s.config := rfl
  have hproblem : (s.asking Q).problem = Q := rfl
  unfold finalCovariance
  rw [hconfig, hproblem]
  cases s.config.covariance with
  | none => rfl
  | some request =>
    dsimp only
    split
    · rfl
    · rw [s.finalJacobian_asking r hQ]
      generalize (s.asking Q).finalJacobian r x = answer
      obtain ⟨r', answer⟩ := answer
      cases answer with
      | error e => rfl
      | ok j =>
        have hcovariance := covariance_simulated hQ (Linearized.solution ⟨x, v, j⟩) r'.account
          r'.search.iterate.d request s.config
        dsimp only [Prod.map, id, Run.map]
        rw [hcovariance]
        generalize covariance Q _ _ _ _ r'.account = answer
        obtain ⟨status, a⟩ := answer
        cases status <;> rfl

theorem finish_asking (o : Outcome) : s.finish (r.map φ) o =
    ((s.asking Q).finish r o).map id φ := by
  unfold finish
  rw [s.finalPoint_asking r hQ]
  generalize (s.asking Q).finalPoint r = answer
  obtain ⟨r', x, v⟩ := answer
  dsimp only [Prod.map, id]
  rw [s.finalCovariance_asking r' hQ]
  rfl

theorem finish_runFor_asking (k : Nat) :
    s.finish (s.runFor k (r.map φ)).1 (s.runFor k (r.map φ)).2 =
      ((s.asking Q).finish ((s.asking Q).runFor k r).1 ((s.asking Q).runFor k r).2).map id φ := by
  rw [s.runFor_asking r hQ]
  exact s.finish_asking _ hQ _

end Setup

end LeastSquares
