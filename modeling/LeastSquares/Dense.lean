import LeastSquares.Sum

namespace LeastSquares

structure Dense (α : Type) (m n : Nat) where
  columns : Vector (Vector α m) n
deriving BEq

namespace Dense

variable {α : Type} {m n k : Nat}

def get (a : Dense α m n) (i : Fin m) (j : Fin n) : α := a.columns[j][i]

def ofFn (f : Fin m → Fin n → α) : Dense α m n := ⟨Vector.ofFn fun j => Vector.ofFn fun i => f i j⟩

def transpose (a : Dense α m n) : Dense α n m := ofFn fun i j => a.get j i

def column (a : Dense α m n) (j : Fin n) : Vector α m := a.columns[j]

def all (a : Dense α m n) (q : α → Bool) : Bool := a.columns.all (·.all q)

variable [Scalar α]

def identity : Dense α n n := ofFn fun i j => if i = j then 1 else 0

def sub (a b : Dense α m n) : Dense α m n := ⟨Vector.zipWith (· - ·) a.columns b.columns⟩

def add (a b : Dense α m n) : Dense α m n := ⟨Vector.zipWith (· + ·) a.columns b.columns⟩

def scale (a : Dense α m n) (c : α) : Dense α m n := ⟨a.columns.map (·.map (· * c))⟩

def mul (a : Dense α m k) (b : Dense α k n) : Dense α m n :=
  ofFn fun i j => sumOver (List.finRange k) fun l => a.get i l * b.get l j

def transposeMulVec (a : Dense α m n) (v : Vector α m) : Vector α n := a.columns.map (dot · v)

end Dense

/-- A matrix whose shape is known only when it is looked at. -/
structure AnyDense (α : Type) where
  rows : Nat
  cols : Nat
  entries : Dense α rows cols

end LeastSquares
