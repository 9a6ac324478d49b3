import LeastSquares.Proofs.Linear.Inverse
import LeastSquares.Proofs.Packed.Storage

namespace LeastSquares

open Matrix

variable {n : Nat}

section Loops

variable {α : Type} [Scalar α]

theorem sumOver_take_succ (f : Fin n → α) (i : Fin n) :
    sumOver ((List.finRange n).take (i + 1)) f = sumOver ((List.finRange n).take i) f + f i := by
  have hi : (i : Nat) < (List.finRange n).length := by simp
  simp [sumOver, List.take_succ_eq_append_getElem hi, List.foldl_append]

/-- One turn of the product with a stored row: the number at `(i, j)` also stands for the one
at `(j, i)`, and is used for both. -/
def Symmetric.mulPair (a : Symmetric α n) (x : Vector α n) (i : Fin n) (y : Vector α n)
    (j : Fin n) : Vector α n :=
  let y := y.set i (y[i] + a.get i j * x[j]) i.isLt
  y.set j (y[j] + a.get i j * x[i]) j.isLt

def Symmetric.mulRow (a : Symmetric α n) (x y : Vector α n) (i : Fin n) : Vector α n :=
  let y := (below i).foldl (a.mulPair x i) y
  y.set i (y[i] + a.get i i * x[i]) i.isLt

/-- After the rows before place `k` a component has the terms of those rows, if it is one of
them, and none otherwise. -/
def Symmetric.MulRows (a : Symmetric α n) (x : Vector α n) (k : Nat) (y : Vector α n) : Prop :=
  ∀ r : Fin n, y[r] =
    if (r : Nat) < k then sumOver ((List.finRange n).take k) (fun j => a.get r j * x[j]) else 0

/-- Within row `i`, the component of the row has its terms before place `k`, those before `k` have
their term of the row already, and the others wait for it. -/
def Symmetric.MulPairs (a : Symmetric α n) (x y : Vector α n) (i : Fin n) (k : Nat)
    (z : Vector α n) : Prop :=
  ∀ r : Fin n, z[r] =
    if r = i then sumOver ((List.finRange n).take k) (fun j => a.get i j * x[j])
    else if (r : Nat) < k then
      sumOver ((List.finRange n).take (i + 1)) (fun j => a.get r j * x[j])
    else y[r]

theorem Symmetric.mulPairs_mulPair {a : Symmetric α n} {x y z : Vector α n} {i j : Fin n}
    (hy : a.MulRows x i y) (hj : (j : Nat) < i) (hz : a.MulPairs x y i j z) :
    a.MulPairs x y i (j + 1) (a.mulPair x i z j) := by
  intro r
  have hne : (i : Nat) ≠ j := by omega
  by_cases hr : r = i
  · have hzi := hz i
    rw [if_pos rfl] at hzi
    rw [if_pos hr, sumOver_take_succ, hr, ← hzi]
    simp [mulPair, Vector.getElem_set, hne.symm]
  rw [if_neg hr]
  have hir : (i : Nat) ≠ r := fun h => hr (Fin.ext h.symm)
  by_cases hrj : r = j
  · have hzj := hz j
    have hterm : a.get j i * x[i] = a.get i j * x[i] := by rw [a.get_comm]
    rw [if_neg (hrj ▸ hr), if_neg (lt_irrefl _), hy j, if_pos hj] at hzj
    rw [hrj, if_pos (Nat.lt_succ_self _), sumOver_take_succ, hterm, ← hzj]
    simp [mulPair, hne]
  · have hjr : (j : Nat) ≠ r := fun h => hrj (Fin.ext h.symm)
    have hzr := hz r
    have hlt : (r : Nat) < j + 1 ↔ (r : Nat) < j := by omega
    rw [if_neg hr] at hzr
    simp only [hlt]
    rw [← hzr]
    simp [mulPair, Vector.getElem_set, hir, hjr]

theorem Symmetric.mulRows_mulRow {a : Symmetric α n} {x y : Vector α n} {i : Fin n}
    (hy : a.MulRows x i y) : a.MulRows x (i + 1) (a.mulRow x y i) := by
  have hstart : a.MulPairs x y i 0 y := by
    intro r
    by_cases hr : r = i
    · rw [if_pos hr, hr, hy i, if_neg (lt_irrefl _)]
      rfl
    · rw [if_neg hr, if_neg (Nat.not_lt_zero _)]
  -- Each entry of the row is used at its two places, and the diagonal one once.
  have hpairs : a.MulPairs x y i i ((below i).foldl (a.mulPair x i) y) :=
    foldl_take_induction (a.MulPairs x y i) i.isLt.le hstart
      fun j z hj hz => mulPairs_mulPair hy hj hz
  intro r
  by_cases hr : r = i
  · have hi := hpairs i
    rw [if_pos rfl] at hi
    rw [hr, if_pos (Nat.lt_succ_self _), sumOver_take_succ, ← hi]
    simp [mulRow]
  · have hir : (i : Nat) ≠ r := fun h => hr (Fin.ext h.symm)
    have hlt : (r : Nat) < i + 1 ↔ (r : Nat) < i := by omega
    have hsame := hpairs r
    rw [if_neg hr] at hsame
    simp only [hlt]
    have hset : (a.mulRow x y i)[r] = ((below i).foldl (a.mulPair x i) y)[r] := by
      simp [mulRow, hir]
    rw [hset]
    refine hsame.trans ?_
    by_cases hbefore : (r : Nat) < i
    · rw [if_pos hbefore, if_pos hbefore]
    · rw [if_neg hbefore, if_neg hbefore, hy r, if_neg hbefore]

theorem Symmetric.foldl_mulRow (a : Symmetric α n) (x : Vector α n) :
    (List.finRange n).foldl (a.mulRow x) (Vector.replicate n 0) = a.mulVec x := by
  have hrows := foldl_finRange_induction (f := a.mulRow x) (b := Vector.replicate n 0)
    (a.MulRows x) (fun r => by simp) fun i y hy => mulRows_mulRow hy
  apply Vector.ext
  intro r hr
  have hall := hrows ⟨r, hr⟩
  rw [if_pos hr, List.take_of_length_le (by simp)] at hall
  simpa [mulVec] using hall

/-- Adds the terms a stored row has in the product with the transpose. -/
def Lower.transposeRow (l : Lower α n) (x y : Vector α n) (i : Fin n) : Vector α n :=
  (upTo i).foldl (fun y (j : Fin n) => y.set j (y[j] + l.get i j * x[i]) j.isLt) y

theorem Lower.getElem_transposeRow (l : Lower α n) (x y : Vector α n) (i r : Fin n) :
    (l.transposeRow x y i)[r] = if r ≤ i then y[r] + l.get i r * x[i] else y[r] :=
  (getElem_foldl_set (fun j v => v + l.get i j * x[i]) y i.isLt r).trans
    (if_congr Nat.lt_succ_iff rfl rfl)

theorem Lower.foldl_transposeRow (l : Lower α n) (x : Vector α n) :
    (List.finRange n).foldl (l.transposeRow x) (Vector.replicate n 0) = l.transposeMulVec x := by
  have hrows := foldl_finRange_induction (f := l.transposeRow x) (b := Vector.replicate n 0)
    (fun k y => ∀ r : Fin n,
      y[r] = sumOver (((List.finRange n).take k).drop r) fun i => l.get i r * x[i])
    (fun r => by simp [sumOver]) ?turn
  case turn =>
    intro i y hy r
    have hi : (i : Nat) < (List.finRange n).length := by simp
    rw [l.getElem_transposeRow, hy r, List.take_succ_eq_append_getElem hi]
    by_cases hr : r ≤ i
    · have hlength : (r : Nat) ≤ ((List.finRange n).take i).length := by simpa using hr
      rw [if_pos hr, List.drop_append_of_le_length hlength]
      simp [sumOver, List.foldl_append]
    · have hlt : (i : Nat) < r := by simpa using hr
      rw [if_neg hr, List.drop_of_length_le (by simp; omega),
        List.drop_of_length_le (by simp; omega)]
  apply Vector.ext
  intro r hr
  have hall := hrows ⟨r, hr⟩
  rw [List.take_of_length_le (by simp)] at hall
  simpa [transposeMulVec, onwards] using hall

end Loops

namespace Symmetric

/-- What can be done to a packed matrix. -/
inductive Edit (n : Nat) where
  | set (i j : Fin n) (v : ℝ)
  | addToDiagonal (c : ℝ)
  | scale (c : ℝ)
  | add (b : Symmetric ℝ n)
  | rankTwo (c : ℝ) (u v : Vector ℝ n)
  | diagonallyScaled (d : Vector ℝ n) (hd : ∀ i : Fin n, d[i] ≠ 0)
  | permuted (σ : Equiv.Perm (Fin n))

namespace Edit

noncomputable def apply (a : Symmetric ℝ n) : Edit n → Symmetric ℝ n
  | set i j v => a.set i j v
  | addToDiagonal c => a.addToDiagonal c
  | scale c => a.scale c
  | add b => a.add b
  | rankTwo c u v => a.rankTwo c u v
  | diagonallyScaled d _ => a.diagonallyScaled d
  | permuted σ => a.permuted (Vector.ofFn σ)

noncomputable def dense (m : Matrix (Fin n) (Fin n) ℝ) : Edit n → Matrix (Fin n) (Fin n) ℝ
  | set i j v => of fun k l => if i = k ∧ j = l ∨ i = l ∧ j = k then v else m k l
  | addToDiagonal c => m + c • 1
  | scale c => c • m
  | add b => m + b.toDense.matrix
  | rankTwo c u v =>
    m + c • (vecMulVec (coords u) (coords v) + vecMulVec (coords v) (coords u))
  | diagonallyScaled d _ => (Matrix.diagonal (coords d))⁻¹ * m * (Matrix.diagonal (coords d))⁻¹
  | permuted σ => m.submatrix σ.symm σ.symm

end Edit

theorem matrix_set (a : Symmetric ℝ n) (i j : Fin n) (v : ℝ) :
    (a.set i j v).matrix =
      of fun k l => if i = k ∧ j = l ∨ i = l ∧ j = k then v else a.matrix k l := by
  ext k l
  exact a.get_set i j k l v

theorem matrix_scale (a : Symmetric ℝ n) (c : ℝ) : (a.scale c).matrix = c • a.matrix := by
  ext i j
  simp only [matrix_apply, get, scale, Triangle.get, Matrix.smul_apply, smul_eq_mul]
  split <;> simp [mul_comm]

theorem matrix_add (a b : Symmetric ℝ n) : (a.add b).matrix = a.matrix + b.matrix := by
  ext i j
  simp only [matrix_apply, get, add, Triangle.get, Matrix.add_apply]
  split <;> simp

theorem matrix_zeros : (zeros n : Symmetric ℝ n).matrix = 0 := by
  ext i j
  rw [matrix_apply]
  unfold get zeros
  split <;> exact Triangle.get_replicate 0 _

theorem add_zeros (a : Symmetric ℝ n) : a.add (zeros n) = a :=
  matrix_injective (by rw [matrix_add, matrix_zeros, add_zero])

theorem matrix_rankTwo (a : Symmetric ℝ n) (c : ℝ) (u v : Vector ℝ n) :
    (a.rankTwo c u v).matrix =
      a.matrix + c • (vecMulVec (coords u) (coords v) + vecMulVec (coords v) (coords u)) := by
  apply matrix_eq_of_le
  · apply a.isSymm_matrix.add
    rw [IsSymm, transpose_smul, transpose_add, transpose_vecMulVec, transpose_vecMulVec, add_comm]
  · intro i j hj
    rw [rankTwo, get_ofFn, if_pos hj]
    rfl

theorem matrix_diagonallyScaled_eq (a : Symmetric ℝ n) {d : Vector ℝ n}
    (hd : ∀ i : Fin n, d[i] ≠ 0) : (a.diagonallyScaled d).matrix =
      (Matrix.diagonal (coords d))⁻¹ * a.matrix * (Matrix.diagonal (coords d))⁻¹ := by
  have hinverse : (Matrix.diagonal (coords d))⁻¹ = Matrix.diagonal fun i => (coords d i)⁻¹ := by
    apply inv_eq_left_inv
    rw [diagonal_mul_diagonal, ← diagonal_one]
    exact congrArg Matrix.diagonal (funext fun i => inv_mul_cancel₀ (hd i))
  ext i j
  rw [matrix_diagonallyScaled, hinverse, mul_diagonal, diagonal_mul, matrix_apply, coords_apply,
    coords_apply, div_eq_mul_inv, mul_inv]
  ring

theorem matrix_permuted (a : Symmetric ℝ n) (σ : Equiv.Perm (Fin n)) :
    (a.permuted (Vector.ofFn σ)).matrix = a.matrix.submatrix σ.symm σ.symm := by
  have hplace (i : Fin n) : (Vector.ofFn σ)[i] = σ i := by simp
  have hinjective : Function.Injective fun i : Fin n => (Vector.ofFn σ)[i] := by
    intro i j h
    dsimp only at h
    rw [hplace, hplace] at h
    exact σ.injective h
  ext k l
  have hmoved := a.get_permuted hinjective (σ.symm k) (σ.symm l)
  rw [hplace, hplace, σ.apply_symm_apply, σ.apply_symm_apply] at hmoved
  exact hmoved

theorem Edit.matrix_apply (a : Symmetric ℝ n) (e : Edit n) :
    (e.apply a).matrix = e.dense a.matrix := by
  cases e with
  | set i j v => exact a.matrix_set i j v
  | addToDiagonal c => exact a.matrix_addToDiagonal c
  | scale c => exact a.matrix_scale c
  | add b =>
    rw [apply, dense, matrix_add, matrix_toDense]
  | rankTwo c u v => exact a.matrix_rankTwo c u v
  | diagonallyScaled d hd => exact a.matrix_diagonallyScaled_eq hd
  | permuted σ => exact a.matrix_permuted σ

theorem matrix_foldl_apply (edits : List (Edit n)) (a : Symmetric ℝ n) :
    (edits.foldl Edit.apply a).matrix = edits.foldl Edit.dense a.matrix := by
  induction edits generalizing a with
  | nil => rfl
  | cons e edits ih => rw [List.foldl_cons, List.foldl_cons, ih, e.matrix_apply]

theorem isGreatest_maxAbs (hn : 0 < n) (a : Symmetric ℝ n) :
    IsGreatest (Set.range fun p : Fin n × Fin n => |a.matrix p.1 p.2|) a.maxAbs := by
  constructor
  · rcases a.maxAbs_eq with hzero | ⟨i, j, hij⟩
    · have hle := a.abs_get_le_maxAbs ⟨0, hn⟩ ⟨0, hn⟩
      rw [hzero] at hle
      exact ⟨(⟨0, hn⟩, ⟨0, hn⟩), (le_antisymm hle (abs_nonneg _)).trans hzero.symm⟩
    · exact ⟨(i, j), hij⟩
  · rintro _ ⟨⟨i, j⟩, rfl⟩
    exact a.abs_get_le_maxAbs i j

/-- All that is read off the packed matrix `a` is read off the matrix `m`. -/
structure Shows (a : Symmetric ℝ n) (m : Matrix (Fin n) (Fin n) ℝ) : Prop where
  toDense : a.toDense.matrix = m
  get : ∀ i j, a.get i j = m i j
  diagonal : coords a.diagonal = m.diag
  mulVec : ∀ x, coords (a.mulVec x) = m *ᵥ coords x
  mulRows : ∀ x, coords ((List.finRange n).foldl (a.mulRow x) (Vector.replicate n 0)) =
    m *ᵥ coords x
  quadraticForm : ∀ x, a.quadraticForm x = coords x ⬝ᵥ m *ᵥ coords x
  maxAbs : 0 < n → IsGreatest (Set.range fun p : Fin n × Fin n => |m p.1 p.2|) a.maxAbs

theorem shows_matrix (a : Symmetric ℝ n) : a.Shows a.matrix where
  toDense := a.matrix_toDense
  get _ _ := rfl
  diagonal := by
    funext i
    simp [coords, Symmetric.diagonal, Matrix.diag, Symmetric.matrix_apply]
  mulVec := a.coords_mulVec
  mulRows x := by rw [a.foldl_mulRow, a.coords_mulVec]
  quadraticForm := a.quadraticForm_eq
  maxAbs hn := a.isGreatest_maxAbs hn

end Symmetric

namespace Lower

theorem matrix_toDense (l : Lower ℝ n) : l.toDense.matrix = l.matrix :=
  Dense.matrix_ofFn l.get

theorem coords_mulVec (l : Lower ℝ n) (x : Vector ℝ n) :
    coords (l.mulVec x) = l.matrix *ᵥ coords x := by
  funext i
  have hmem : (upTo i).toFinset = Finset.Iic i := by
    ext j
    simp [mem_upTo]
  rw [l.mulVec_apply, coords, mulVec, getElem_place, Vector.getElem_ofFn,
    sumOver_eq_sum (nodup_upTo i), hmem]
  rfl

theorem coords_transposeMulVec (l : Lower ℝ n) (x : Vector ℝ n) :
    coords (l.transposeMulVec x) = l.matrixᵀ *ᵥ coords x := by
  funext j
  have hmem : (onwards j).toFinset = Finset.Ici j := by
    ext i
    simp [onwards, mem_drop_finRange]
  rw [l.transpose_mulVec_apply, coords, transposeMulVec, getElem_place, Vector.getElem_ofFn,
    sumOver_eq_sum (nodup_onwards j), hmem]
  rfl

structure Shows (l : Lower ℝ n) (m : Matrix (Fin n) (Fin n) ℝ) : Prop where
  toDense : l.toDense.matrix = m
  get : ∀ i j, l.get i j = m i j
  above : ∀ i j, i < j → m i j = 0
  timesTranspose : l.timesTranspose.matrix = m * mᵀ
  transposeTimesSelf : l.transposeTimesSelf.matrix = mᵀ * m
  mulVec : ∀ x, coords (l.mulVec x) = m *ᵥ coords x
  transposeMulVec : ∀ x, coords (l.transposeMulVec x) = mᵀ *ᵥ coords x
  transposeRows : ∀ x, coords ((List.finRange n).foldl (l.transposeRow x) (Vector.replicate n 0)) =
    mᵀ *ᵥ coords x

theorem shows_matrix (l : Lower ℝ n) : l.Shows l.matrix where
  toDense := l.matrix_toDense
  get _ _ := rfl
  above _ _ hij := l.get_of_lt hij
  timesTranspose := l.timesTranspose_matrix
  transposeTimesSelf := l.transposeTimesSelf_matrix
  mulVec := l.coords_mulVec
  transposeMulVec := l.coords_transposeMulVec
  transposeRows x := by rw [l.foldl_transposeRow, l.coords_transposeMulVec]

end Lower

/-- A packed matrix is a symmetric matrix and a packed triangle a lower triangular one, no more
and no less, and whatever is done to them is done to the matrices they stand for. -/
theorem packed_refines (n : Nat) :
    (Set.BijOn Symmetric.toDense Set.univ (Dense.symmetric ℝ n) ∧
      Set.InvOn Symmetric.ofDense Symmetric.toDense Set.univ (Dense.symmetric ℝ n) ∧
      (∀ data : Array ℝ, (∃ a, Symmetric.ofArray n data = .ok a) ↔
        data.size = n * (n + 1) / 2) ∧
      (∀ (data : Array ℝ) (a : Symmetric ℝ n), Symmetric.ofArray n data = .ok a →
        ∀ i j : Fin n, j ≤ i → data[(i * (i + 1) / 2 + j : Nat)]? = some (a.get i j)) ∧
      (∀ (edits : List (Symmetric.Edit n)) (a : Symmetric ℝ n),
        (edits.foldl Symmetric.Edit.apply a).Shows
          (edits.foldl Symmetric.Edit.dense a.toDense.matrix)) ∧
      ∀ (a : Symmetric ℝ n) (p : Vector (Fin n) n), (Function.Injective fun k : Fin n => p[k]) →
        ∀ i j : Fin n, (a.permuted p).get p[i] p[j] = a.get i j) ∧
    Set.BijOn Lower.toDense Set.univ (Dense.lower ℝ n) ∧
      Set.InvOn (fun d : Dense ℝ n n => Lower.ofFn d.get) Lower.toDense Set.univ
        (Dense.lower ℝ n) ∧
      (∀ data : Array ℝ, (∃ l, Lower.ofArray n data = .ok l) ↔
        data.size = n * (n + 1) / 2) ∧
      (∀ (data : Array ℝ) (l : Lower ℝ n), Lower.ofArray n data = .ok l →
        ∀ i j : Fin n, j ≤ i → data[(i * (i + 1) / 2 + j : Nat)]? = some (l.get i j)) ∧
      ∀ l : Lower ℝ n, l.Shows l.toDense.matrix := by
  refine ⟨⟨Symmetric.bijOn_toDense, Symmetric.invOn_ofDense,
      fun data => Symmetric.exists_ofArray_iff, ?places, ?edits, ?permuted⟩,
    Lower.bijOn_toDense, Lower.invOn_ofFn, fun data => Lower.exists_ofArray_iff, ?lowerPlaces,
    ?lower⟩
  case places =>
    rintro data a ha i j hj
    rw [← Symmetric.ofArray_eq_ok_iff.mp ha]
    exact a.getElem?_toArray hj
  case edits =>
    intro edits a
    rw [a.matrix_toDense, ← a.matrix_foldl_apply edits]
    exact Symmetric.shows_matrix _
  case permuted =>
    intro a p hp i j
    exact a.get_permuted hp i j
  case lowerPlaces =>
    intro data l hl i j hj
    rw [← Lower.ofArray_eq_ok_iff.mp hl]
    exact l.getElem?_toArray hj
  case lower =>
    intro l
    rw [l.matrix_toDense]
    exact l.shows_matrix

end LeastSquares
