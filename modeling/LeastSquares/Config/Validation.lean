import LeastSquares.Config.Basic
import LeastSquares.Error

namespace LeastSquares

namespace Config

variable {α : Type} [Scalar α]

def value (c : Config α) : Field → α
  | .absFuncTol => c.absFuncTol
  | .relFuncTol => c.relFuncTol
  | .xConvergeTol => c.xConvergeTol
  | .falseConvergeTol => c.falseConvergeTol
  | .singularTol => c.singularTol
  | .tuner1 => c.tuner1
  | .tuner2 => c.tuner2
  | .tuner3 => c.tuner3
  | .tuner4 => c.tuner4
  | .tuner5 => c.tuner5
  | .scaleDecay => c.scaleDecay
  | .scaleFloor => c.scaleFloor
  | .cosineMin => c.cosineMin
  | .initialTrustRadius => c.initialTrustRadius
  | .epsilonStep => c.epsilonStep
  | .decreaseFactor => c.decreaseFactor
  | .increaseFactor => c.increaseFactor
  | .radfacMin => c.radfacMin
  | .radfacMax => c.radfacMax
  | .scaleReset => c.scaleReset
  | .fdGradientStep => c.fdGradientStep
  | .fdFunctionStep => c.fdFunctionStep
  | .fdJacobianStep => c.fdJacobianStep

/-- Fields that may be zero, in the order in which they are looked at. -/
def nonnegativeFields : List Field :=
  [.absFuncTol, .relFuncTol, .xConvergeTol, .falseConvergeTol, .singularTol, .tuner1, .tuner2,
    .tuner3, .tuner4, .tuner5, .scaleDecay, .scaleFloor, .cosineMin]

def positiveFields : List Field :=
  [.initialTrustRadius, .epsilonStep, .decreaseFactor, .increaseFactor, .radfacMin, .radfacMax,
    .scaleReset, .fdGradientStep, .fdFunctionStep, .fdJacobianStep]

def isNonnegative (v : α) : Bool := decide (0 ≤ v) && Scalar.isFinite v

def isPositive (v : α) : Bool := decide (0 < v) && Scalar.isFinite v

def fieldFault? (c : Config α) : Option (ConfigFault α) :=
  match nonnegativeFields.find? fun f => !isNonnegative (c.value f) with
  | some f => some (.notNonnegative f (c.value f))
  | none => (positiveFields.find? fun f => !isPositive (c.value f)).map
      fun f => .notPositive f (c.value f)

def rangeFault? (c : Config α) : Option (ConfigFault α) :=
  if 1 ≤ c.decreaseFactor then some .decreaseFactor
  else if ¬(-1 < c.phiMin ∧ c.phiMin ≤ 0 ∧ 0 ≤ c.phiMax) then some (.phiBand c.phiMin c.phiMax)
  else if c.maxFunctionEvals = 0 ∨ c.maxIterations = 0 then some .limits
  else if c.hebdenIterationLimit = 0 then some .hebdenLimit
  else none

def scaleFault? (c : Config α) (p : Nat) : Option (FitError α) :=
  match c.scaleMode with
  | .fixed (some d) =>
    if d.size ≠ p then some (.dimension .fixedScale p d.size)
    else (d.findIdx? fun v => !isPositive v).map fun i => .config (.scaleEntry i)
  | _ => none

def logFault? (c : Config α) : Option (ConfigFault α) :=
  c.logLevel.bind fun s => if (LogLevel.ofName? s).isNone then some (.logLevel s) else none

/-- The first fault of a configuration for a fit of `p` parameters. -/
def fault? (c : Config α) (p : Nat) : Option (FitError α) :=
  (c.fieldFault?.map .config).or <| (c.rangeFault?.map .config).or <|
    (c.scaleFault? p).or <| c.logFault?.map .config

def validate (c : Config α) (p : Nat) : Except (FitError α) Unit :=
  match c.fault? p with
  | some e => .error e
  | none => .ok ()

end Config

end LeastSquares
