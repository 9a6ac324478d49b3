import LeastSquares.Packed.Symmetric

namespace LeastSquares

structure Lower (α : Type) (n : Nat) where
  triangle : Triangle α n
deriving BEq

namespace Lower

variable {α : Type} {n : Nat}

def set (l : Lower α n) (i j : Fin n) (v : α) : Lower α n :=
  if h : j ≤ i then ⟨l.triangle.set i j h v⟩ else l

/-- Only the values on and below the diagonal are taken. -/
def ofFn (f : Fin n → Fin n → α) : Lower α n := ⟨Triangle.ofFn f⟩

def ofArray (n : Nat) (a : Array α) : Except LinearError (Lower α n) :=
  (Triangle.ofArray n a).map mk

variable [Scalar α]

def get (l : Lower α n) (i j : Fin n) : α := if h : j ≤ i then l.triangle.get i j h else 0

theorem get_of_lt (l : Lower α n) {i j : Fin n} (h : i < j) : l.get i j = 0 :=
  dif_neg (Fin.not_le.mpr h)

theorem get_set (l : Lower α n) {i j : Fin n} (h : j ≤ i) (k m : Fin n) (v : α) :
    (l.set i j v).get k m = if i = k ∧ j = m then v else l.get k m := by
  unfold get set
  by_cases h' : m ≤ k
  · simp only [h, h', dite_true, Triangle.get_set]
  · have hne : ¬(i = k ∧ j = m) := fun hkm => h' (hkm.1 ▸ hkm.2 ▸ h)
    simp only [h', dite_false, hne, if_false]

theorem get_ofFn (f : Fin n → Fin n → α) (i j : Fin n) :
    (ofFn f).get i j = if j ≤ i then f i j else 0 := by
  unfold get ofFn
  split
  · exact Triangle.get_ofFn f _
  · rfl

def toDense (l : Lower α n) : Dense α n n := Dense.ofFn l.get

def zeros (n : Nat) : Lower α n := ⟨Triangle.replicate n 0⟩

def identity : Lower α n := ofFn fun i j => if i = j then 1 else 0

def zeroPivot (l : Lower α n) (i : Fin n) : Bool := l.get i i == 0

def firstZero? (l : Lower α n) : Option (Fin n) := (List.finRange n).find? l.zeroPivot

def lastZero? (l : Lower α n) : Option (Fin n) := (List.finRange n).reverse.find? l.zeroPivot

def forwardStep (l : Lower α n) (x : Vector α n) (i : Fin n) : Vector α n :=
  x.set i (lessOver (below i) x[i] (fun j => l.get i j * x[j]) / l.get i i) i.isLt

def forward (l : Lower α n) (y : Vector α n) : Vector α n :=
  (List.finRange n).foldl l.forwardStep y

/-- The later components are known, and are taken off from the last one on. -/
def backwardStep (l : Lower α n) (i : Fin n) (x : Vector α n) : Vector α n :=
  x.set i (lessOver (above i).reverse x[i] (fun j => x[j] * l.get j i) / l.get i i) i.isLt

def backward (l : Lower α n) (y : Vector α n) : Vector α n :=
  (List.finRange n).foldr l.backwardStep y

def solve (l : Lower α n) (y : Vector α n) : Except LinearError (Vector α n) :=
  match l.firstZero? with
  | some i => .error (.zeroDiagonal i)
  | none => .ok (l.forward y)

def solveTranspose (l : Lower α n) (y : Vector α n) : Except LinearError (Vector α n) :=
  match l.lastZero? with
  | some i => .error (.zeroDiagonal i)
  | none => .ok (l.backward y)

def ofLength (n : Nat) (y : Array α) : Except LinearError (Vector α n) :=
  if h : y.size = n then .ok ⟨y, h⟩ else .error (.dimensionMismatch n y.size)

def solveArray (l : Lower α n) (y : Array α) : Except LinearError (Vector α n) :=
  ofLength n y >>= l.solve

def solveTransposeArray (l : Lower α n) (y : Array α) : Except LinearError (Vector α n) :=
  ofLength n y >>= l.solveTranspose

def inverseRow (l x : Lower α n) (i : Fin n) : Lower α n :=
  (below i).foldl
    (fun x j =>
      x.set i j (-sumOver ((below i).drop j) (fun k => l.get i k * x.get k j) / l.get i i))
    (x.set i i (1 / l.get i i))

def invert (l : Lower α n) : Except LinearError (Lower α n) :=
  match l.firstZero? with
  | some i => .error (.zeroDiagonal i)
  | none => .ok ((List.finRange n).foldl l.inverseRow (zeros n))

def transposeTimesSelf (l : Lower α n) : Symmetric α n :=
  .ofFn fun i j => sumOver (onwards i) fun k => l.get k i * l.get k j

def timesTranspose (l : Lower α n) : Symmetric α n :=
  .ofFn fun i j => sumOver (upTo j) fun k => l.get i k * l.get j k

def mulVec (l : Lower α n) (x : Vector α n) : Vector α n :=
  Vector.ofFn fun i => sumOver (upTo i) fun j => l.get i j * x[j]

def transposeMulVec (l : Lower α n) (x : Vector α n) : Vector α n :=
  Vector.ofFn fun j => sumOver (onwards j) fun i => l.get i j * x[i]

end Lower

end LeastSquares
