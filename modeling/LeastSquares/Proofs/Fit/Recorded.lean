import LeastSquares.Proofs.Fit.Simulated

namespace LeastSquares

variable {α σ : Type} {n p : Nat}

abbrev Calls (α : Type) (p : Nat) := List (Mode × Vector α p)

/-- The problem that also keeps how it was called, the first call first. -/
def Problem.recorded (P : Problem α σ p) : Problem α (σ × Calls α p) p where
  evaluate x mode state :=
    let (answer, inner) := P.evaluate x mode state.1
    (answer, inner, state.2 ++ [(mode, x)])
  stopRequested k x state :=
    let (stop, inner) := P.stopRequested k x state.1
    (stop, inner, state.2)

theorem Problem.simulates_recorded [Scalar α] (P : Problem α σ p) (n : Nat) :
    P.recorded.Simulates P n Prod.fst where
  residuals _ _ := rfl
  linearization _ _ := rfl
  stop _ _ _ := rfl

def Setup.recorded [Scalar α] (s : Setup α σ p) : Setup α (σ × Calls α p) p :=
  { s with problem := s.problem.recorded }

theorem fit_recorded [Geometry α] (P : Problem α σ p) (initial : Vector α p)
    (lower upper : Option (Array (Scalar.Side α))) (c : Config α) (state : σ × Calls α p) :
    fit P initial lower upper c state.1 =
      (fit P.recorded initial lower upper c state).map id Prod.fst := by
  unfold fit
  cases checkInput initial lower upper c with
  | error e => rfl
  | ok bounds =>
    dsimp only
    generalize (bounds.map (·.project initial)).getD initial = x
    have hcall : P.evaluate x .jacobian state.1 =
      (P.recorded.evaluate x .jacobian state).map id Prod.fst := rfl
    rw [hcall]
    generalize P.recorded.evaluate x .jacobian state = answer
    obtain ⟨answer, state'⟩ := answer
    cases answer with
    | error e => rfl
    | ok e =>
      dsimp only [Prod.map, id]
      cases firstPoint x e with
      | error e => rfl
      | ok point =>
        obtain ⟨n, l⟩ := point
        dsimp only
        have hrun := Setup.finish_runFor_asking ⟨P, bounds, c⟩ (.start c l state')
          (P.simulates_recorded n) c.maxIterations
        have hstart : (Run.start c l state').map Prod.fst = .start c l state'.1 := rfl
        rw [hstart] at hrun
        rw [hrun]
        rfl

def fitCalls [Geometry α] (P : Problem α σ p) (initial : Vector α p)
    (lower upper : Option (Array (Scalar.Side α))) (c : Config α) (state : σ) : Calls α p :=
  (fit P.recorded initial lower upper c (state, [])).2.2

end LeastSquares
