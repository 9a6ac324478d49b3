import LeastSquares.Scalar

namespace LeastSquares

/-- An index of the size of the vector needs no bound to be shown. -/
instance getElemPlace {α : Type} {n : Nat} : GetElem (Vector α n) (Fin n) α fun _ _ => True where
  getElem x i _ := x.get i

@[simp]
theorem getElem_place {α : Type} {n : Nat} (x : Vector α n) (i : Fin n) :
    x[i] = getElem x i.val i.isLt := rfl

variable {α : Type} [Scalar α] {n : Nat}

def below (i : Fin n) : List (Fin n) := (List.finRange n).take i

def upTo (i : Fin n) : List (Fin n) := (List.finRange n).take (i + 1)

def onwards (i : Fin n) : List (Fin n) := (List.finRange n).drop i

def above (i : Fin n) : List (Fin n) := (List.finRange n).drop (i + 1)

/-- The terms are added to zero in the order of the list. -/
def sumOver (l : List (Fin n)) (f : Fin n → α) : α := l.foldl (fun s i => s + f i) 0

def lessOver (l : List (Fin n)) (a : α) (f : Fin n → α) : α := l.foldl (fun s i => s - f i) a

def lane (x y : Vector α n) (k : Nat) (hk : k < 8) : α :=
  Fin.foldl (n / 8) (fun s b => s + x[8 * b + k] * y[8 * b + k]) 0

/-- Eight running sums take the components in turn, and what is left of the last turn is
added one by one. Below eight components this is the plain sum from left to right. -/
def dot (x y : Vector α n) : α :=
  Fin.foldl (n % 8) (fun s k => s + x[8 * (n / 8) + k] * y[8 * (n / 8) + k])
    (0 + (lane x y 0 (by decide) + lane x y 4 (by decide))
      + (lane x y 1 (by decide) + lane x y 5 (by decide))
      + (lane x y 2 (by decide) + lane x y 6 (by decide))
      + (lane x y 3 (by decide) + lane x y 7 (by decide)))

def normSq (x : Vector α n) : α := dot x x

def timesEach (x y : Vector α n) : Vector α n := Vector.zipWith (· * ·) x y

def overEach (x y : Vector α n) : Vector α n := Vector.zipWith (· / ·) x y

def square (a : α) : α := a * a

end LeastSquares
