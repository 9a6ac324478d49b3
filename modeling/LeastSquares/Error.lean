import LeastSquares.Failure

namespace LeastSquares

inductive LogLevel where
  | debug
  | info
  | warn
  | error
  | off
deriving DecidableEq

def LogLevel.ofName? : String → Option LogLevel
  | "debug" => some .debug
  | "info" => some .info
  | "warn" => some .warn
  | "error" => some .error
  | "off" => some .off
  | "none" => some .off
  | _ => none

/-- A number of the configuration that has a range of its own. -/
inductive Field where
  | absFuncTol
  | relFuncTol
  | xConvergeTol
  | falseConvergeTol
  | singularTol
  | tuner1
  | tuner2
  | tuner3
  | tuner4
  | tuner5
  | scaleDecay
  | scaleFloor
  | cosineMin
  | initialTrustRadius
  | epsilonStep
  | decreaseFactor
  | increaseFactor
  | radfacMin
  | radfacMax
  | scaleReset
  | fdGradientStep
  | fdFunctionStep
  | fdJacobianStep
deriving DecidableEq

def Field.name : Field → String
  | absFuncTol => "abs_func_tol"
  | relFuncTol => "rel_func_tol"
  | xConvergeTol => "x_converge_tol"
  | falseConvergeTol => "false_converge_tol"
  | singularTol => "singular_tol"
  | tuner1 => "tuner1"
  | tuner2 => "tuner2"
  | tuner3 => "tuner3"
  | tuner4 => "tuner4"
  | tuner5 => "tuner5"
  | scaleDecay => "scale_decay"
  | scaleFloor => "scale_floor"
  | cosineMin => "cosine_min"
  | initialTrustRadius => "initial_trust_radius"
  | epsilonStep => "epsilon_step"
  | decreaseFactor => "decrease_factor"
  | increaseFactor => "increase_factor"
  | radfacMin => "radfac_min"
  | radfacMax => "radfac_max"
  | scaleReset => "scale_reset"
  | fdGradientStep => "fd_gradient_step"
  | fdFunctionStep => "fd_function_step"
  | fdJacobianStep => "fd_jacobian_step"

inductive ConfigFault (α : Type) where
  | notNonnegative (field : Field) (value : α)
  | notPositive (field : Field) (value : α)
  | decreaseFactor
  | phiBand (low high : α)
  | limits
  | hebdenLimit
  | scaleEntry (index : Nat)
  | logLevel (name : String)

/-- What is counted when two lengths have to agree. -/
inductive Quantity where
  | fixedScale
  | lowerBounds
  | upperBounds
  | jacobianRows
  | jacobianColumns
deriving DecidableEq

def Quantity.name : Quantity → String
  | fixedScale => "fixed scale vector"
  | lowerBounds => "lower bounds"
  | upperBounds => "upper bounds"
  | jacobianRows => "Jacobian rows"
  | jacobianColumns => "Jacobian columns"

/-- Input that makes a fit impossible, found before its first iteration. -/
inductive FitError (α : Type) where
  | noParameters
  | tooFewResiduals (residuals parameters : Nat)
  | dimension (what : Quantity) (expected found : Nat)
  | invalidBounds (index : Nat)
  | nonFiniteStart (index : Nat)
  | config (fault : ConfigFault α)
  | initialEvaluation (failure : Failure)

def LogLevel.parse (α : Type) (s : String) : Except (FitError α) LogLevel :=
  match LogLevel.ofName? s with
  | some l => .ok l
  | none => .error (.config (.logLevel s))

end LeastSquares
