import LeastSquares.Proofs.Fit.Frame

namespace LeastSquares

variable {α σ : Type} {n p : Nat}

def Config.limited (c : Config α) (evals iterations : Nat) : Config α :=
  { c with maxFunctionEvals := evals, maxIterations := iterations }

section

variable [Scalar α] (c : Config α) (evals iterations : Nat)

theorem Pass.transition_limited (w : Pass α p) (entry : Verdict) (node : Node) :
    w.transition (c.limited evals iterations) entry node = w.transition c entry node := by
  cases node <;> rfl

theorem Pass.run_limited (entry : Verdict) (k : Nat) (node : Node) (w : Pass α p) :
    Pass.run (c.limited evals iterations) entry k node w = Pass.run c entry k node w := by
  induction k generalizing node w with
  | zero => rfl
  | succ k ih =>
    unfold Pass.run
    rw [transition_limited, ih]

theorem assess_limited (s : Search α p) :
    assess (c.limited evals iterations) s = assess c s := by
  unfold assess
  rw [Pass.run_limited]

end

namespace Setup

def limited [Scalar α] (s : Setup α σ p) (evals iterations : Nat) : Setup α σ p :=
  { s with config := s.config.limited evals iterations }

variable [Geometry α] (s : Setup α σ p) (evals iterations : Nat)

theorem tried_limited (h : Head α σ n p) :
    (s.limited evals iterations).tried h = s.tried h := rfl

theorem judge_limited (g : Vector α p) (m : Symmetric α p) (r : Run α σ n p) :
    (s.limited evals iterations).judge g m r = s.judge g m r := by
  have hassess (e : Search α p) :
      assess (s.limited evals iterations).config e = assess s.config e :=
    assess_limited s.config evals iterations e
  unfold judge
  simp only [hassess]
  rfl

theorem evaluated_limited (h : Head α σ n p) :
    (s.limited evals iterations).evaluated h = s.evaluated h := by
  unfold evaluated
  rw [tried_limited]
  rfl

theorem judged_limited (h : Head α σ n p) :
    (s.limited evals iterations).judged h = s.judged h := by
  unfold judged
  rw [judge_limited, evaluated_limited, tried_limited]

theorem accept_limited (g : Vector α p) (normal m : Symmetric α p) (r : Run α σ n p) :
    (s.limited evals iterations).accept g normal m r = s.accept g normal m r := by
  unfold accept
  rfl

theorem follow_limited (g : Vector α p) (normal m : Symmetric α p) (model : Model)
    (r : Run α σ n p) :
    (s.limited evals iterations).follow g normal m model r = s.follow g normal m model r := by
  unfold follow
  rw [accept_limited]

theorem followed_limited (h : Head α σ n p) :
    (s.limited evals iterations).followed h = s.followed h := by
  unfold followed
  rw [judged_limited, tried_limited, follow_limited]

theorem finish_limited (r : Run α σ n p) (o : Outcome) :
    (s.limited evals iterations).finish r o = s.finish r o := rfl

section

variable {s evals iterations} {h : Head α σ n p} {r₀ r : Run α σ n p} {l : List (Head α σ n p)}
  {o : Outcome}
  (hevals : s.config.maxFunctionEvals ≤ evals) (hiterations : s.config.maxIterations ≤ iterations)
include hevals hiterations

theorem Passes.limited (hl : s.Passes r₀ l) : (s.limited evals iterations).Passes r₀ l := by
  induction hl with
  | opened => exact .opened
  | again _ hcontinues hr ih =>
    refine .again ih (Nat.lt_of_lt_of_le hcontinues hevals) ?_
    rw [followed_limited]
    exact hr
  | next _ hcontinues hr hleft ih =>
    refine .next ih (Nat.lt_of_lt_of_le hcontinues hevals) ?_
      (Nat.lt_of_lt_of_le hleft hiterations)
    rw [followed_limited]
    exact hr

omit hiterations in
theorem Ends.limited (hend : s.Ends h r o) (hlimit : o ≠ .functionEvalLimit)
    (hexhausted : o ≠ .iterationLimit) : (s.limited evals iterations).Ends h r o := by
  cases hend with
  | limit => exact absurd rfl hlimit
  | exhausted => exact absurd rfl hexhausted
  | finished hcontinues hr =>
    refine .finished (Nat.lt_of_lt_of_le hcontinues hevals) ?_
    rw [followed_limited]
    exact hr

end

end Setup

end LeastSquares
