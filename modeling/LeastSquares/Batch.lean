import LeastSquares.Fit.Run

namespace LeastSquares

/-- A fit to be made, with the state that its problem starts from. -/
structure Job (α σ : Type) [Scalar α] where
  parameters : Nat
  problem : Problem α σ parameters
  initial : Vector α parameters
  lower : Option (Array (Scalar.Side α))
  upper : Option (Array (Scalar.Side α))
  state : σ

variable {α σ : Type} [Geometry α]

def Job.fit (c : Config α) (j : Job α σ) : Except (FitError α) (Report α j.parameters) :=
  (LeastSquares.fit j.problem j.initial j.lower j.upper c j.state).1

def fitBatch (c : Config α) (jobs : List (Job α σ)) :
    List (Except (FitError α) ((p : Nat) × Report α p)) :=
  jobs.map fun j => (j.fit c).map fun r => ⟨j.parameters, r⟩

end LeastSquares
