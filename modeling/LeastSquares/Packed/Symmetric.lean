import LeastSquares.Packed.Triangle

namespace LeastSquares

structure Symmetric (α : Type) (n : Nat) where
  lower : Triangle α n
deriving BEq

namespace Symmetric

variable {α : Type} {n : Nat}

def get (a : Symmetric α n) (i j : Fin n) : α :=
  if h : j ≤ i then a.lower.get i j h else a.lower.get j i (Nat.le_of_not_le h)

def set (a : Symmetric α n) (i j : Fin n) (v : α) : Symmetric α n :=
  ⟨if h : j ≤ i then a.lower.set i j h v else a.lower.set j i (Nat.le_of_not_le h) v⟩

/-- Only the values on and below the diagonal are taken. -/
def ofFn (f : Fin n → Fin n → α) : Symmetric α n := ⟨Triangle.ofFn f⟩

def ofArray (n : Nat) (a : Array α) : Except LinearError (Symmetric α n) :=
  (Triangle.ofArray n a).map mk

def ofDense (a : Dense α n n) : Symmetric α n := ofFn a.get

def toDense (a : Symmetric α n) : Dense α n n := Dense.ofFn a.get

def diagonal (a : Symmetric α n) : Vector α n := Vector.ofFn fun i => a.get i i

theorem get_comm (a : Symmetric α n) (i j : Fin n) : a.get i j = a.get j i := by
  unfold get
  by_cases h : j ≤ i
  · by_cases h' : i ≤ j
    · have hij : i = j := Fin.le_antisymm h' h
      subst hij
      rfl
    · rw [dif_pos h, dif_neg h']
  · rw [dif_neg h, dif_pos (Fin.le_of_lt (Fin.not_le.mp h))]

theorem get_set (a : Symmetric α n) (i j k l : Fin n) (v : α) :
    (a.set i j v).get k l = if i = k ∧ j = l ∨ i = l ∧ j = k then v else a.get k l := by
  unfold get set
  by_cases h : j ≤ i <;> by_cases h' : l ≤ k <;>
    simp only [h, h', dite_true, dite_false, Triangle.get_set] <;>
    congr 1 <;> simp only [eq_iff_iff] <;> grind

theorem get_ofFn (f : Fin n → Fin n → α) (i j : Fin n) :
    (ofFn f).get i j = if j ≤ i then f i j else f j i := by
  unfold get ofFn
  split <;> exact Triangle.get_ofFn f _

variable [Scalar α]

def zeros (n : Nat) : Symmetric α n := ⟨Triangle.replicate n 0⟩

def addToDiagonal (a : Symmetric α n) (c : α) : Symmetric α n :=
  ofFn fun i j => if i = j then a.get i j + c else a.get i j

def scale (a : Symmetric α n) (c : α) : Symmetric α n := ⟨⟨a.lower.entries.map (· * c)⟩⟩

def maxAbs (a : Symmetric α n) : α := a.lower.entries.foldl (fun m v => max m (Scalar.abs v)) 0

def add (a b : Symmetric α n) : Symmetric α n :=
  ⟨⟨Vector.zipWith (· + ·) a.lower.entries b.lower.entries⟩⟩

def mulVec (a : Symmetric α n) (x : Vector α n) : Vector α n :=
  Vector.ofFn fun i => sumOver (List.finRange n) fun j => a.get i j * x[j]

def quadraticForm (a : Symmetric α n) (x : Vector α n) : α := dot x (a.mulVec x)

/-- `D⁻¹ A D⁻¹` for the diagonal `d` of `D`. -/
def diagonallyScaled (a : Symmetric α n) (d : Vector α n) : Symmetric α n :=
  ofFn fun i j => a.get i j / (d[i] * d[j])

def rankTwo (a : Symmetric α n) (c : α) (u v : Vector α n) : Symmetric α n :=
  ofFn fun i j => a.get i j + c * (u[i] * v[j] + v[i] * u[j])

/-- Row and column `k` move to place `p[k]`. Where `p` names a place twice, the entry placed
last stays. -/
def permuted (a : Symmetric α n) (p : Vector (Fin n) n) : Symmetric α n :=
  (List.finRange n).foldl (fun b i => (upTo i).foldl (fun b j => b.set p[i] p[j] (a.get i j)) b)
    (zeros n)

end Symmetric

end LeastSquares
