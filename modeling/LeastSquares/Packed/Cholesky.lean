import LeastSquares.Length
import LeastSquares.Packed.Lower

namespace LeastSquares

variable {α : Type} {n : Nat}

/-- A factorization that met a pivot which is not positive. The factor has the rows before
`index` and that row, with the pivot itself on the diagonal; the later rows are zero. -/
structure NotPositiveDefinite (α : Type) (n : Nat) where
  index : Fin n
  factor : Lower α n

namespace Cholesky

variable [Scalar α]

def reduced (a : Symmetric α n) (l : Lower α n) (i j : Fin n) : α :=
  lessOver (below j) (a.get i j) fun k => l.get i k * l.get j k

def offDiagonal (a : Symmetric α n) (l : Lower α n) (i : Fin n) : Lower α n :=
  (below i).foldl (fun l j => l.set i j (reduced a l i j / l.get j j)) l

def row (a : Symmetric α n) (l : Lower α n) (i : Fin n) :
    Except (NotPositiveDefinite α n) (Lower α n) :=
  let l := offDiagonal a l i
  let t := reduced a l i i
  if t ≤ 0 then .error ⟨i, l.set i i t⟩ else .ok (l.set i i (Scalar.sqrt t))

end Cholesky

/-- The factor `L` with `L Lᵀ = A` and a positive diagonal. -/
def Symmetric.cholesky [Scalar α] (a : Symmetric α n) :
    Except (NotPositiveDefinite α n) (Lower α n) :=
  (List.finRange n).foldlM (Cholesky.row a) (Lower.zeros n)

namespace NotPositiveDefinite

variable [Geometry α]

def pivot (e : NotPositiveDefinite α n) : α := e.factor.get e.index e.index

def directionStep (e : NotPositiveDefinite α n) (i : Fin n) (w : Vector α n) : Vector α n :=
  w.set i (-sumOver ((upTo e.index).drop (i + 1)) (fun j => e.factor.get j i * w[j])
    / e.factor.get i i) i.isLt

/-- A direction along which the matrix is not positive: the solution of `Lᵀ w = e` for the
unit vector of the failing row, its pivot read as one. -/
def direction (e : NotPositiveDefinite α n) : Vector α n :=
  (below e.index).foldr e.directionStep ((Vector.replicate n 0).set e.index 1 e.index.isLt)

/-- The Rayleigh quotient of the matrix along `direction`. -/
def rayleigh (e : NotPositiveDefinite α n) : α :=
  let length := Geometry.norm e.direction
  e.pivot / (length * length)

end NotPositiveDefinite

end LeastSquares
