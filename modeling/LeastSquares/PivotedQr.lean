import LeastSquares.Length
import LeastSquares.Packed.Lower

namespace LeastSquares

variable {α : Type} {m n : Nat}

/-- Columns count from zero. -/
inductive RankStatus where
  | fullRank
  | deficient (column : Nat)
  | underflow (column : Nat)
deriving DecidableEq

/-- Positive for a deficient column and negative for one that underflows, counted from one. -/
def RankStatus.code : RankStatus → Int
  | .fullRank => 0
  | .deficient k => k + 1
  | .underflow k => -(k + 1 : Int)

/-- A factorization under way. Of a column already treated, the part above the diagonal
belongs to `R` and the rest is its reflection vector. -/
structure Sweep (α : Type) (m n : Nat) where
  columns : Vector (Vector α m) n
  diagonal : Vector α n
  permutation : Vector (Fin n) n
  /-- Squared norms of what is left of the columns, downdated. -/
  remaining : Vector α n
  /-- The squared norms when they were last computed afresh. -/
  reference : Vector α n

namespace Sweep

variable [Geometry α]

def start (a : Dense α m n) : Sweep α m n :=
  let norms := a.columns.map fun c => square (Geometry.norm c)
  ⟨a.columns, Vector.replicate n 0, Vector.finRange n, norms, norms⟩

def swap (w : Sweep α m n) (j k : Fin n) : Sweep α m n :=
  { w with
    columns := w.columns.swap j k j.isLt k.isLt
    permutation := w.permutation.swap j k j.isLt k.isLt
    remaining := w.remaining.swap j k j.isLt k.isLt
    reference := w.reference.swap j k j.isLt k.isLt }

/-- The first column of those from `j` on with the most left. -/
def longest (w : Sweep α m n) (j : Fin n) : Fin n :=
  (above j).foldl (fun k i => if w.remaining[k] < w.remaining[i] then i else k) j

def pivot (w : Sweep α m n) (j : Fin n) : Sweep α m n := w.swap j (w.longest j)

def tailNorm (w : Sweep α m n) (j : Fin n) : α := Geometry.norm (w.columns[j].drop j)

def obstacle (w : Sweep α m n) (longest : α) (j : Fin n) : Option RankStatus :=
  let s := w.tailNorm j
  if s == 0 ∨ s ≤ rankTolerance * longest then some (.deficient j)
  else if s < sqrtTiny then some (.underflow j)
  else none

end Sweep

def axpyFrom [Scalar α] (j : Nat) (t : α) (w v : Vector α m) : Vector α m :=
  Vector.ofFn fun i => if j ≤ i then t * w[i] + v[i] else v[i]

/-- The reflection whose vector is the part of `w` from row `j` on. -/
def reflect [Scalar α] (j : Fin m) (w v : Vector α m) : Vector α m :=
  axpyFrom j (-(dot (v.drop j) (w.drop j) / w[j])) w v

/-- The part from the diagonal on is divided by its signed norm `s`, and one is added to its
first entry. -/
def reflector [Scalar α] (j : Fin m) (s : α) (v : Vector α m) : Vector α m :=
  Vector.ofFn fun i => if i < j then v[i] else if i = j then v[i] / s + 1 else v[i] / s

namespace Sweep

variable [Geometry α]

/-- One reflection of column `k`. More than 99% of a norm gone calls for a fresh one. -/
def reflectColumn (w : Sweep α m n) (j : Fin m) (axis : Vector α m) (k : Fin n) : Sweep α m n :=
  let v := reflect j axis w.columns[k]
  let left := w.remaining[k] - v[j] * v[j]
  let w := { w with columns := w.columns.set k v k.isLt }
  -- What is left was found by subtraction, and most of its digits are gone.
  if left ≤ 1 / 100 * w.reference[k] then
    let fresh := square (Geometry.norm (v.drop (j + 1)))
    { w with
      remaining := w.remaining.set k fresh k.isLt
      reference := w.reference.set k fresh k.isLt }
  else { w with remaining := w.remaining.set k left k.isLt }

def eliminate (w : Sweep α m n) (i : Fin m) (j : Fin n) : Sweep α m n :=
  let norm := w.tailNorm j
  let s := if w.columns[j][i] < 0 then -norm else norm
  let axis := reflector i s w.columns[j]
  (above j).foldl (fun w k => w.reflectColumn i axis k)
    { w with
      columns := w.columns.set j axis j.isLt
      diagonal := w.diagonal.set j (-s) j.isLt }

end Sweep

/-- A factorization `A Π = Q R` by reflections. It stops at the first column with next to
nothing left, and from there on the rows of `R` are zero. -/
structure PivotedQr (α : Type) (m n : Nat) where
  sweep : Sweep α m n
  status : RankStatus
  rank : Nat
  rank_le : rank ≤ min m n

def Sweep.run [Geometry α] (longest : α) (fixed : Nat) :
    List (Fin (min m n)) → Sweep α m n → PivotedQr α m n
  | [], w => ⟨w, .fullRank, min m n, Nat.le_refl _⟩
  | k :: ks, w =>
    let i := k.castLE (Nat.min_le_left m n)
    let j := k.castLE (Nat.min_le_right m n)
    -- The first `fixed` columns are not exchanged.
    let w := if fixed ≤ k then w.pivot j else w
    match w.obstacle longest j with
    | some status => ⟨w, status, k, Nat.le_of_lt k.isLt⟩
    | none => run longest fixed ks (w.eliminate i j)

/-- The first `fixed` columns keep their places, and of the others always the longest that
remains comes next. -/
def Dense.pivotedQr [Geometry α] (a : Dense α m n) (fixed : Nat) : PivotedQr α m n :=
  (Sweep.start a).run (a.columns.foldl (fun l c => max l (Geometry.norm c)) 0) fixed
    (List.finRange (min m n))

namespace PivotedQr

variable [Scalar α]

def steps (f : PivotedQr α m n) : List (Fin (min m n)) := (List.finRange (min m n)).take f.rank

def reflectAt (f : PivotedQr α m n) (k : Fin (min m n)) (v : Vector α m) : Vector α m :=
  reflect (k.castLE (Nat.min_le_left m n))
    f.sweep.columns[k.castLE (Nat.min_le_right m n)] v

def transposeMul (f : PivotedQr α m n) (b : Vector α m) : Vector α m :=
  f.steps.foldl (fun v k => f.reflectAt k v) b

def q (f : PivotedQr α m n) : Dense α m m :=
  ⟨Dense.identity.columns.map fun c => f.steps.foldr f.reflectAt c⟩

def entry (f : PivotedQr α m n) (i j : Fin n) : α :=
  if h : i < f.rank ∧ i ≤ j then
    if i = j then f.sweep.diagonal[i]
    else
      have : (i : Nat) < m := Nat.lt_of_lt_of_le h.1 (Nat.le_trans f.rank_le (Nat.min_le_left m n))
      f.sweep.columns[j][(i : Nat)]
  else 0

def r (f : PivotedQr α m n) : Dense α n n := Dense.ofFn f.entry

def rTranspose (f : PivotedQr α m n) : Lower α n := .ofFn fun i j => f.entry j i

def normalMatrix (f : PivotedQr α m n) : Symmetric α n :=
  f.rTranspose.timesTranspose.permuted f.sweep.permutation

/-- `(AᵀA)⁻¹`, which a factorization that stopped early does not give. -/
def normalInverse (f : PivotedQr α m n) : Except LinearError (Symmetric α n) :=
  if f.rank < n then .error (.zeroDiagonal f.rank)
  else f.rTranspose.invert.map fun x => x.transposeTimesSelf.permuted f.sweep.permutation

end PivotedQr

end LeastSquares
