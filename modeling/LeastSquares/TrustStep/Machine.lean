import LeastSquares.TrustStep.Basic

namespace LeastSquares

variable {α : Type} {p : Nat}

inductive Phase where
  | freshStart
  | tryNewton
  | bracket
  | restart
  | shift
  | solve
  | checkSpecial
  | update
  | done
deriving DecidableEq

structure StepWork (α : Type) (p : Nat) where
  memory : StepMemory α p
  parameter : α
  factor : Option (Lower α p)
  step : Vector α p
  /-- The squared length of `L⁻¹ g`. -/
  energy : α
  length : α
  /-- By how much the step is longer than the radius. -/
  excess : α
  lastExcess : α
  /-- The step has a part along a direction of next to no curvature. -/
  special : Bool
  /-- No shift made the Hessian positive definite. -/
  stuck : Bool

variable [Geometry α]

def StepWork.start (m : StepMemory α p) : StepWork α p :=
  ⟨m, 0, none, Vector.replicate p 0, 0, 0, 0, 0, false, false⟩

/-- `L⁻¹ g` and the step `-L⁻ᵀ L⁻¹ g`. -/
def Lower.newtonStep (l : Lower α p) (g : Vector α p) :
    Except LinearError (Vector α p × Vector α p) := do
  let q ← l.solve g
  let s ← l.solveTranspose q
  return (q, -s)

namespace StepTask

variable (t : StepTask α p) (w : StepWork α p)

def freshStart : Phase × StepWork α p :=
  (.tryNewton, { w with
    memory := { w.memory with
      count := 0
      gradientNorm := Geometry.norm t.gradient
      low := 0
      high := 0
      newtonReduction := 0
      newtonLength := 0
      newtonSlope := 0
      circles := none
      newton := none
      last := none } })

/-- The Newton step, if it lies within the radius. -/
def tryNewton : Phase × StepWork α p :=
  match t.hessian.cholesky with
  | .error e =>
    let low := -e.rayleigh
    (.bracket, { w with memory := { w.memory with low, newtonLength := -low } })
  | .ok l =>
    let sigma := l.smallestSingular.sigma
    -- A factor next to singular is as good as none.
    if sigma * sigma ≤ singularFactor * t.largestEntry then
      (.bracket, { w with
        memory := { w.memory with newtonLength := -(sigma * sigma), newtonReduction := 0 } })
    else match l.newtonStep t.gradient with
      | .error _ => (.bracket, w)
      | .ok (q, s) =>
        let energy := normSq q
        let length := Geometry.norm s
        let excess := length - t.radius
        let w := { w with
          memory := { w.memory with
            newtonReduction := 1 / 2 * energy
            newtonLength := length
            newton := some s }
          parameter := 0
          length
          excess }
        if excess ≤ t.longBy then (.done, { w with step := s, energy, factor := some l })
        else match l.solve s with
          | .error _ => (.bracket, w)
          | .ok v =>
            -- How fast a shift makes the step shorter, and so how much of one is needed at least.
            let slope := length / square (Geometry.norm v)
            (.bracket, { w with
              memory := { w.memory with
                newtonSlope := slope
                low := max w.memory.low (excess * slope)
                last := some ⟨0, l, s, length⟩ } })

def bracketMemory (m : StepMemory α p) : StepMemory α p :=
  let circles := m.circles.getD t.hessian.gershgorin
  let ratio := m.gradientNorm / t.radius
  let high := ratio - circles.1
  StepMemory.widen { m with
    circles := some circles
    -- The circles may leave nothing above zero, and an interval is needed all the same.
    high := if high ≤ 0 then 1 / 1000 else high
    low := max (max m.low (ratio - circles.2)) 0 }

/-- The last parameter, adapted to the new radius. -/
def guess (m : StepMemory α p) : α :=
  if 0 < m.radius then Scalar.abs m.parameter * m.radius / t.radius else 0

def bracket : Phase × StepWork α p :=
  let m := t.bracketMemory w.memory
  (.shift, { w with memory := m, parameter := t.guess m })

/-- A step of Newton's method on `1/length - 1/radius`, which never goes beyond its zero. -/
def hebden : Phase × StepWork α p :=
  match w.factor with
  | none => (.shift, w)
  | some l => match l.solve w.step with
    | .error _ => (.shift, w)
    | .ok v =>
      let r := Geometry.norm v
      if 0 < r then
        let parameter := w.parameter + w.excess / r * (w.length / r) * (w.length / t.radius)
        (.shift, { w with parameter, memory := w.memory.raiseLow parameter })
      else (.shift, w)

def newtonFits (m : StepMemory α p) : Bool :=
  decide (0 < m.newtonLength ∧ m.newtonLength - t.radius ≤ t.longBy)

/-- The bracket for the new radius, before the last step is used. -/
def restartMemory (m : StepMemory α p) : StepMemory α p :=
  let m := { m with low := max (-m.newtonLength) 0 }
  t.bracketMemory <|
    if 0 < m.newtonLength then m.raiseLow ((m.newtonLength - t.radius) * m.newtonSlope) else m

/-- A smaller radius needs a larger parameter than the last one, and a larger radius a smaller. -/
def cutByLast (m : StepMemory α p) (last : Factored α p) : StepMemory α p :=
  let before := Scalar.abs m.parameter
  StepMemory.widen <|
    if 0 < before ∧ t.radius < last.length then m.raiseLow before
    else if 0 < before ∧ last.length < t.radius then { m with high := min m.high before }
    else m

def restart : Phase × StepWork α p :=
  let m := { w.memory with count := 0 }
  match if t.newtonFits m then m.newton else none with
  | some s =>
    (.done, { w with
      memory := m
      step := s
      parameter := 0
      length := m.newtonLength
      energy := 2 * m.newtonReduction })
  | none =>
    let m := t.restartMemory m
    match m.last with
    | some last =>
      t.hebden { w with
        memory := t.cutByLast m last
        parameter := last.parameter
        length := last.length
        excess := last.length - t.radius
        step := last.step
        factor := some last.factor }
    | none => (.shift, { w with memory := m, parameter := t.guess m })

/-- Once the limit is passed the circles choose the parameter; before, it is kept inside the
bracket. -/
def safeParameter (m : StepMemory α p) (a : α) : α :=
  if t.limit < m.count then
    2 * max (max m.low (-(m.circles.elim 0 Prod.fst))) 0
      + singularFactor * max t.largestEntry 1
  else if a < m.low ∨ m.high ≤ a ∨ a ≤ -m.newtonLength then
    m.high * max (1 / 1000) (Scalar.sqrt (max m.low 0 / m.high))
  else a

def shift : Phase × StepWork α p :=
  let m := { w.memory with count := w.memory.count + 1 }
  -- More shifts than the ceiling allows, and the step is given up.
  if t.ceiling < m.count then (.done, { w with memory := m, stuck := true })
  else
    let parameter := t.safeParameter m w.parameter
    match (t.hessian.addToDiagonal parameter).cholesky with
    | .ok l => (.solve, { w with memory := m, parameter, factor := some l })
    | .error e =>
      let low := max m.low (parameter - e.rayleigh)
      (.shift, { w with
        memory := StepMemory.widen { m with low, newtonLength := -low }
        parameter })

def solve : Phase × StepWork α p :=
  match w.factor with
  | none => (.shift, w)
  | some l => match l.newtonStep t.gradient with
    | .error _ => (.shift, { w with memory := (w.memory.raiseLow w.parameter).widen })
    | .ok (q, s) =>
      let length := Geometry.norm s
      let excess := length - t.radius
      let w := { w with
        energy := normSq q
        length
        step := s
        excess
        memory := { w.memory with last := some ⟨w.parameter, l, s, length⟩ } }
      if t.shortBy ≤ excess ∧ excess ≤ t.longBy then (.done, w)
      -- The same length as after the last shift: no other one will come closer.
      else if excess == w.lastExcess then (.done, w)
      else (if excess < 0 then .checkSpecial else .update, { w with lastExcess := excess })

/-- How far to go along the unit vector `z` from a step inside the radius to reach it. -/
def stretch (s z : Vector α p) (length : α) : α :=
  let along := Geometry.inner s z
  let gap := (t.radius - length) * (t.radius + length)
  let root := Scalar.sqrt (along * along + gap)
  gap / (if along < 0 then along - root else along + root)

def checkSpecial : Phase × StepWork α p :=
  match w.factor with
  | none => (.update, w)
  | some l =>
    let e := l.smallestSingular
    match l.solveTranspose e.right with
    | .error _ => (.update, w)
    | .ok v =>
      let r := Geometry.norm v
      if r == 0 then (.update, w)
      else
        let z := v.map (· / r)
        let sigma := Geometry.norm e.right / r
        let theta := t.stretch w.step z w.length
        -- A stretch is taken if it loses little of what the step gains.
        if theta * theta * sigma * sigma
            ≤ t.loss * (w.energy + w.parameter * t.radius * t.radius) then
          let s := w.step + z.map (· * theta)
          (.done, { w with step := s, length := Geometry.norm s, special := true })
        else (.update, { w with memory := w.memory.raiseLow (w.parameter - sigma * sigma) })

def updateMemory : StepMemory α p :=
  if w.excess < 0 then { w.memory with high := min w.memory.high w.parameter } else w.memory

def update : Phase × StepWork α p :=
  if t.limit ≤ w.memory.count then (.done, w)
  else if w.memory.gradientNorm == 0 then (.shift, { w with memory := updateMemory w })
  else t.hebden { w with memory := updateMemory w }

def transition : Phase → StepWork α p → Phase × StepWork α p
  | .freshStart, w => t.freshStart w
  | .tryNewton, w => t.tryNewton w
  | .bracket, w => t.bracket w
  | .restart, w => t.restart w
  | .shift, w => t.shift w
  | .solve, w => t.solve w
  | .checkSpecial, w => t.checkSpecial w
  | .update, w => t.update w
  | .done, w => (.done, w)

end StepTask

end LeastSquares
