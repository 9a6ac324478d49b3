import LeastSquares.Length
import LeastSquares.Packed.Symmetric

namespace LeastSquares

variable {α : Type} {p : Nat} [Geometry α]

/-- A secant matrix after a step, with the factor it was sized by. -/
structure SecantUpdate (α : Type) (p : Nat) where
  matrix : Symmetric α p
  tau : α
  updated : Bool

def secantSize (s : Symmetric α p) (step yStar : Vector α p) : α :=
  let sss := dot step (s.mulVec step)
  if sss == 0 then 1 else min (Scalar.abs (dot step yStar) / Scalar.abs sss) 1

/-- Sizes `S` and, unless `step` and `y` are next to orthogonal, makes it map `step` to
`yStar`, the change of the gradient that is not due to `JᵀJ`. -/
def secantUpdate (s : Symmetric α p) (step y yStar : Vector α p) (cosineMin : α) :
    SecantUpdate α p :=
  let tau := secantSize s step yStar
  let sized := if tau < 1 then s.scale tau else s
  -- Both changes divide by this product, so it must not be next to zero.
  let sty := dot step y
  if Scalar.abs sty ≤ cosineMin * Geometry.norm step * Geometry.norm y then ⟨sized, tau, false⟩
  else
    let w := yStar - (s.mulVec step).map (· * tau)
    ⟨(sized.rankTwo (1 / sty) w y).rankTwo (-(1 / 2) * dot step w / (sty * sty)) y y, tau, true⟩

/-- How badly a model Hessian foretold the change `y` of the gradient. -/
def gradientMisfit (h : Symmetric α p) (step y d : Vector α p) : α :=
  Geometry.norm (overEach (y - h.mulVec step) d)

end LeastSquares
