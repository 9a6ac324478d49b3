import LeastSquares.Dense

namespace LeastSquares

def triangular (n : Nat) : Nat := n * (n + 1) / 2

theorem triangular_succ (n : Nat) : triangular (n + 1) = triangular n + (n + 1) := by
  have h : (n + 1) * (n + 1 + 1) = n * (n + 1) + (n + 1) * 2 := by
    rw [Nat.mul_comm n, ← Nat.mul_add]
  rw [triangular, triangular, h, Nat.add_mul_div_right _ _ (by decide)]

theorem triangular_le {m n : Nat} (h : m ≤ n) : triangular m ≤ triangular n :=
  Nat.div_le_div_right (Nat.mul_le_mul h (Nat.succ_le_succ h))

theorem slot_lt {n : Nat} {i j : Fin n} (h : j ≤ i) : triangular i + j < triangular n := by
  have hi := triangular_le i.isLt
  rw [triangular_succ] at hi
  have hj : (j : Nat) ≤ i := h
  omega

theorem slot_lt_of_row_lt {n : Nat} {i j k : Fin n} (h : j ≤ i) (hik : i < k) :
    triangular i + j < triangular k := by
  have hi := triangular_le (show (i : Nat) + 1 ≤ k from hik)
  rw [triangular_succ] at hi
  have hj : (j : Nat) ≤ i := h
  omega

theorem slot_inj {n : Nat} {i j k l : Fin n} (h : j ≤ i) (h' : l ≤ k) :
    triangular i + j = triangular k + l ↔ i = k ∧ j = l := by
  constructor
  · intro he
    rcases Nat.lt_trichotomy i k with hik | hik | hik
    · have := slot_lt_of_row_lt h hik
      omega
    · have hi : i = k := Fin.ext hik
      subst hi
      exact ⟨rfl, Fin.ext (by omega)⟩
    · have := slot_lt_of_row_lt h' hik
      omega
  · rintro ⟨rfl, rfl⟩
    rfl

inductive LinearError where
  | zeroDiagonal (row : Nat)
  | dimensionMismatch (expected found : Nat)
deriving DecidableEq

def LinearError.message : LinearError → String
  | .zeroDiagonal i => s!"zero diagonal element at row {i} of triangular factor"
  | .dimensionMismatch e f => s!"dimension mismatch: expected {e}, found {f}"

/-- The entries on and below a diagonal, row after row: entry `(i, j)` stands at
`triangular i + j`. -/
structure Triangle (α : Type) (n : Nat) where
  entries : Vector α (triangular n)
deriving BEq

namespace Triangle

variable {α : Type} {n : Nat}

def get (t : Triangle α n) (i j : Fin n) (h : j ≤ i) : α :=
  have := slot_lt h
  t.entries[triangular i + j]

def set (t : Triangle α n) (i j : Fin n) (h : j ≤ i) (v : α) : Triangle α n :=
  have := slot_lt h
  ⟨t.entries.set (triangular i + j) v⟩

def rows (f : Fin n → Fin n → α) : (k : Nat) → k ≤ n → Vector α (triangular k)
  | 0, _ => #v[]
  | k + 1, h => (rows f k (Nat.le_of_succ_le h) ++
      Vector.ofFn fun j : Fin (k + 1) => f ⟨k, h⟩ (j.castLE h)).cast (triangular_succ k).symm

def ofFn (f : Fin n → Fin n → α) : Triangle α n := ⟨rows f n (Nat.le_refl n)⟩

/-- A refusal tells the length it expects as a product in words of 64 bits gives it. -/
def ofArray (n : Nat) (a : Array α) : Except LinearError (Triangle α n) :=
  if h : a.size = triangular n then .ok ⟨⟨a, h⟩⟩
  else .error (.dimensionMismatch (n * (n + 1) % Nat.pow 2 64 / 2) a.size)

def ofDense {m : Nat} (a : Dense α m n) : Triangle α (min m n) :=
  ofFn fun i j => a.get (i.castLE (Nat.min_le_left m n)) (j.castLE (Nat.min_le_right m n))

def replicate (n : Nat) (v : α) : Triangle α n := ⟨Vector.replicate _ v⟩

theorem get_set (t : Triangle α n) {i j k l : Fin n} (h : j ≤ i) (h' : l ≤ k) (v : α) :
    (t.set i j h v).get k l h' = if i = k ∧ j = l then v else t.get k l h' := by
  simp only [set, get, Vector.getElem_set, slot_inj h h']

theorem getElem_rows (f : Fin n → Fin n → α) (k : Nat) (hk : k ≤ n) {i j : Fin n} (hi : i < k)
    (h : j ≤ i) (hs : triangular i + j < triangular k) :
    (rows f k hk)[triangular i + j] = f i j := by
  induction k with
  | zero => exact absurd hi (Nat.not_lt_zero _)
  | succ k ih =>
    simp only [rows, Vector.getElem_cast]
    rcases Nat.lt_or_eq_of_le (Nat.le_of_lt_succ hi) with hik | hik
    · have hs' := slot_lt_of_row_lt (k := ⟨k, hk⟩) h hik
      rw [Vector.getElem_append_left hs']
      exact ih _ hik hs'
    · subst hik
      rw [Vector.getElem_append_right]
      · simp
      · exact Nat.le_add_right _ _

theorem get_ofFn (f : Fin n → Fin n → α) {i j : Fin n} (h : j ≤ i) :
    (ofFn f).get i j h = f i j :=
  getElem_rows f n (Nat.le_refl n) i.isLt h (slot_lt h)

theorem get_replicate (v : α) {i j : Fin n} (h : j ≤ i) : (replicate n v).get i j h = v := by
  simp [replicate, get]

end Triangle

end LeastSquares
