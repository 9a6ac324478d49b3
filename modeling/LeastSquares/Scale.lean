import LeastSquares.Config.Basic
import LeastSquares.Length
import LeastSquares.Packed.Symmetric

namespace LeastSquares

variable {α : Type} {m n p : Nat}

/-- The scale before the first Jacobian is known. -/
def ScaleMode.initial [Scalar α] (p : Nat) : ScaleMode α → Vector α p
  | .fixed (some d) => if h : d.size = p then ⟨d, h⟩ else Vector.replicate p 1
  | _ => Vector.replicate p 1

namespace Config

variable [Geometry α]

def scaleEntry (c : Config α) (column : Vector α n) (curvature decay d : α) : α :=
  let r := Geometry.norm column
  let t := max (Scalar.sqrt (r * r + curvature)) (decay * d)
  if t < c.scaleFloor then max c.scaleReset c.scaleFloor else t

/-- The new scale follows the columns of the Jacobian, and falls no faster than the decay
allows. In a first iteration there is nothing to fall from. An entry that no column belongs to
stays as it is. -/
def updateScale (c : Config α) (j : Dense α n m) (second : Option (Symmetric α m)) (first : Bool)
    (d : Vector α p) : Vector α p :=
  match c.scaleMode with
  | .fixed _ => d
  | .adaptive => Vector.ofFn fun i =>
    if h : i < m then
      let curvature := match second with
        | some s => max (s.get ⟨i, h⟩ ⟨i, h⟩) 0
        | none => 0
      c.scaleEntry (j.column ⟨i, h⟩) curvature (if first then 0 else c.scaleDecay) d[i]
    else d[i]

end Config

end LeastSquares
