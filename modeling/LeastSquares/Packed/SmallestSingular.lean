import LeastSquares.Length
import LeastSquares.Packed.Lower

namespace LeastSquares

variable {α : Type} {n : Nat}

structure SingularEstimate (α : Type) (n : Nat) where
  sigma : α
  left : Vector α n
  right : Vector α n

def draw : Nat → Nat
  | 0 => 2
  | k + 1 => 3432 * draw k % 9973

namespace Lower

variable [Geometry α]

/-- Weights between one half and one, the same at every call. -/
def weight (k : Nat) : α := 1 / 2 * (1 + (draw (k + 1) : α) / (9973 : Nat))

/-- Every component before `j` holds the part of its sum that is known already. -/
def growth (l : Lower α n) (x : Vector α n) (j : Fin n) (c : α) : α :=
  (below j).foldl (fun s i => s + Scalar.abs (x[i] + l.get j i * (c / l.get j j))) (Scalar.abs c)

/-- The sign that makes the remaining components grow more is chosen. -/
def growStep (l : Lower α n) (j : Fin n) (x : Vector α n) : Vector α n :=
  let b := weight (n - 1 - j)
  let plus := b - x[j]
  let minus := -b - x[j]
  let v := (if l.growth x j plus < l.growth x j minus then minus else plus) / l.get j j
  (below j).foldl (fun (x : Vector α n) (i : Fin n) => x.set i (x[i] + l.get j i * v) i.isLt)
    (x.set j v j.isLt)

def largeSolution (l : Lower α n) : Vector α n :=
  (List.finRange n).foldr l.growStep (Vector.replicate n 0)

def followStep (l : Lower α n) (x y : Vector α n) (j : Fin n) : Vector α n :=
  y.set j ((x[j] - sumOver (below j) fun i => l.get j i * y[i]) / l.get j j) j.isLt

def follow (l : Lower α n) (x : Vector α n) : Vector α n :=
  (List.finRange n).foldl (l.followStep x) (Vector.replicate n 0)

/-- An estimate of the smallest singular value from above: a solution of `Lᵀ x = b`, made
large by the signs of `b` and then brought to length one, is followed by `L y = x`. -/
def smallestSingular (l : Lower α n) : SingularEstimate α n :=
  -- A zero on the diagonal makes the matrix singular.
  if n = 0 ∨ l.firstZero?.isSome then ⟨0, Vector.replicate n 0, Vector.replicate n 0⟩
  else
    let x := l.largeSolution
    let c := 1 / Geometry.norm x
    let x := x.map (· * c)
    let y := l.follow x
    ⟨1 / Geometry.norm y, x, y⟩

end Lower

end LeastSquares
