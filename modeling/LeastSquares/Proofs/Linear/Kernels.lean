import LeastSquares.Proofs.Packed.Operations

namespace LeastSquares

open Matrix

variable {n : Nat}

theorem find?_pairwise {β : Type} {r : β → β → Prop} {p : β → Bool} {l : List β} {i : β}
    (hl : l.Pairwise r) (h : l.find? p = some i) :
    p i = true ∧ ∀ j ∈ l, p j = true → i = j ∨ r i j := by
  obtain ⟨hi, as, bs, rfl, has⟩ := List.find?_eq_some_iff_append.mp h
  refine ⟨hi, fun j hj hp => ?_⟩
  rcases List.mem_append.mp hj with hj | hj
  · have hnot := has j hj
    rw [hp] at hnot
    cases hnot
  · rcases List.mem_cons.mp hj with rfl | hj
    · exact .inl rfl
    · exact .inr (List.rel_of_pairwise_cons (List.pairwise_append.mp hl).2.1 hj)

namespace Lower

section Loops

variable {α : Type} [Scalar α] (l : Lower α n)

/-- What is answered once a zero on the diagonal was looked for. -/
def answer {β : Type} (zero? : Option (Fin n)) (b : β) : Except LinearError β :=
  match zero? with
  | some i => .error (.zeroDiagonal i)
  | none => .ok b

omit [Scalar α] in
theorem eq_of_answer {β : Type} {zero? : Option (Fin n)} {b x : β}
    (h : answer zero? b = .ok x) : b = x := by
  cases zero? with
  | none => exact Except.ok.inj h
  | some i => cases h

/-- A turn of a loop that ends at a zero on the diagonal. -/
def guarded {β : Type} (turn : β → Fin n → β) (b : β) (i : Fin n) : Except LinearError β :=
  if l.zeroPivot i then .error (.zeroDiagonal i) else .ok (turn b i)

theorem foldlM_guarded {β : Type} (turn : β → Fin n → β) (places : List (Fin n)) (b : β) :
    places.foldlM (l.guarded turn) b =
      answer (places.find? l.zeroPivot) (places.foldl turn b) := by
  induction places generalizing b with
  | nil => rfl
  | cons i places ih =>
    rw [List.foldlM_cons, List.foldl_cons, guarded]
    cases hzero : l.zeroPivot i with
    | true => rw [List.find?_cons_of_pos hzero]; rfl
    | false =>
      have hnot : ¬l.zeroPivot i = true := by rw [hzero]; exact Bool.false_ne_true
      rw [List.find?_cons_of_neg hnot, ← ih]
      rfl

/-- One column of the back substitution: what component `i` adds to the earlier rows is taken off
from them in place. -/
def backwardColumn (x : Vector α n) (i : Fin n) : Vector α n :=
  let v := x[i] / l.get i i
  (below i).foldl (fun (x : Vector α n) (j : Fin n) => x.set j (x[j] - v * l.get i j) j.isLt)
    (x.set i v i.isLt)

theorem getElem_backwardColumn (x : Vector α n) (i r : Fin n) :
    (l.backwardColumn x i)[r] =
      if r = i then x[i] / l.get i i
      else if r < i then x[r] - x[i] / l.get i i * l.get i r else x[r] := by
  have hset (r : Fin n) (v : α) : (x.set i v i.isLt)[r] = if r = i then v else x[r] := by
    simp only [getElem_place, Vector.getElem_set, Fin.ext_iff, eq_comm]
  refine (getElem_foldl_set (fun j y => y - x[i] / l.get i i * l.get i j) _ i.isLt.le r).trans ?_
  rw [hset]
  by_cases hr : r = i
  · rw [if_pos hr, if_pos hr, hr, if_neg (lt_irrefl _)]
  · rw [if_neg hr, if_neg hr]
    rfl

/-- The right side with its components from place `k` on solved for. -/
def solvedFrom (y : Vector α n) (k : Nat) : Vector α n :=
  ((List.finRange n).drop k).foldr l.backwardStep y

theorem solvedFrom_step (y : Vector α n) (i : Fin n) :
    l.solvedFrom y i = l.backwardStep i (l.solvedFrom y (i + 1)) := by
  have hi : (i : Nat) < (List.finRange n).length := by simp
  rw [solvedFrom, List.drop_eq_getElem_cons hi, List.foldr_cons]
  simp [solvedFrom]

/-- From column `k` on the components are solved for, and those before it have lost what the solved
ones add to their rows. -/
def Columns (y : Vector α n) (k : Nat) (x : Vector α n) : Prop :=
  ∀ r : Fin n, x[r] =
    if k ≤ r then (l.solvedFrom y k)[r]
    else lessOver ((List.finRange n).drop k).reverse (l.solvedFrom y k)[r] fun j =>
      (l.solvedFrom y k)[j] * l.get j r

theorem columns_backwardColumn {y x : Vector α n} {i : Fin n} (hx : l.Columns y (i + 1) x) :
    l.Columns y i (l.backwardColumn x i) := by
  intro r
  have hi : (i : Nat) < (List.finRange n).length := by simp
  have hsolved := l.solvedFrom_step y i
  rw [Columns] at hx
  generalize l.solvedFrom y (i + 1) = z at hx hsolved
  have hself : x[i] / l.get i i = (l.backwardStep i z)[i] := by
    rw [hx i, if_neg (Nat.not_succ_le_self _)]
    simp [backwardStep, above]
  have hother (r : Fin n) (hr : r ≠ i) : (l.backwardStep i z)[r] = z[r] :=
    Vector.getElem_set_ne _ _ fun h => hr (Fin.ext h.symm)
  rw [hsolved, getElem_backwardColumn, hself]
  rcases lt_trichotomy r i with hr | rfl | hr
  · have hplaces : ∀ j ∈ ((List.finRange n).drop (i + 1)).reverse, j ≠ i := by
      intro j hj
      rw [List.mem_reverse, mem_drop_finRange] at hj
      exact fun h => by subst h; omega
    have hbefore : ¬(i : Nat) ≤ r := Nat.not_le.mpr hr
    rw [if_neg hr.ne, if_pos hr, hx r, if_neg fun h => hbefore (Nat.le_of_succ_le h),
      if_neg hbefore, List.drop_eq_getElem_cons hi, hother r hr.ne]
    simp only [lessOver, List.reverse_cons, List.foldl_append, List.getElem_finRange,
      Fin.cast_mk, List.foldl_cons, List.foldl_nil]
    congr 1
    apply List.foldl_ext
    intro s j hj
    rw [hother j (hplaces j hj)]
  · rw [if_pos rfl, if_pos le_rfl]
  · have hafter : (i : Nat) + 1 ≤ r := hr
    rw [if_neg hr.ne', if_neg hr.not_gt, hx r, if_pos hafter, if_pos (Nat.le_of_succ_le hafter),
      hother r hr.ne']

theorem foldl_backwardColumn (y : Vector α n) :
    (List.finRange n).reverse.foldl l.backwardColumn y = l.backward y := by
  have hstart : l.Columns y n y := by
    intro r
    have hnone : (List.finRange n).drop n = [] := List.drop_eq_nil_of_le (by simp)
    rw [if_neg (Nat.not_le.mpr r.isLt), solvedFrom, hnone]
    rfl
  rw [List.foldl_reverse]
  have hcolumns := foldr_finRange_induction (f := fun i x => l.backwardColumn x i) (b := y)
    (l.Columns y) hstart fun i x hx => l.columns_backwardColumn hx
  apply Vector.ext
  intro r hr
  exact hcolumns ⟨r, hr⟩

/-- The kernels as loops that meet the diagonal entry of a row only in its turn: forward by rows,
backward by columns in place, and an inverse of which each row reads the rows before it. -/
structure Loops : Prop where
  solve : ∀ y, (List.finRange n).foldlM (l.guarded l.forwardStep) y = l.solve y
  solveTranspose : ∀ y,
    (List.finRange n).reverse.foldlM (l.guarded l.backwardColumn) y = l.solveTranspose y
  invert : (List.finRange n).foldlM (l.guarded l.inverseRow) (zeros n) = l.invert

theorem loops : l.Loops where
  solve y := l.foldlM_guarded l.forwardStep _ y
  solveTranspose y := by
    rw [foldlM_guarded, foldl_backwardColumn]
    rfl
  invert := l.foldlM_guarded l.inverseRow _ _

end Loops

variable {l : Lower ℝ n}

theorem isLeast_of_firstZero? {i : Fin n} (h : l.firstZero? = some i) :
    IsLeast {i | l.get i i = 0} i := by
  obtain ⟨hi, hothers⟩ := find?_pairwise (List.pairwise_lt_finRange n) h
  refine ⟨zeroPivot_iff.mp hi, fun j hj => ?_⟩
  exact le_iff_eq_or_lt.mpr (hothers j (List.mem_finRange j) (zeroPivot_iff.mpr hj))

theorem isGreatest_of_lastZero? {i : Fin n} (h : l.lastZero? = some i) :
    IsGreatest {i | l.get i i = 0} i := by
  have hordered : (List.finRange n).reverse.Pairwise fun i j => j < i :=
    List.pairwise_reverse.mpr (List.pairwise_lt_finRange n)
  obtain ⟨hi, hothers⟩ := find?_pairwise hordered h
  refine ⟨zeroPivot_iff.mp hi, fun j hj => ?_⟩
  have hmem := List.mem_reverse.mpr (List.mem_finRange j)
  rcases hothers j hmem (zeroPivot_iff.mpr hj) with rfl | hlt
  · exact le_rfl
  · exact hlt.le

/-- An answer is refused for a zero on the diagonal and for nothing else, and the zero that comes
`extreme` of all is told. -/
def Refuses {β : Type} (l : Lower ℝ n) (extreme : Set (Fin n) → Fin n → Prop)
    (answer : Except LinearError β) : Prop :=
  ((∃ x, answer = .ok x) ↔ ∀ i, l.get i i ≠ 0) ∧
    ∀ e, answer = .error e ↔ ∃ i, extreme {i | l.get i i = 0} i ∧ e = .zeroDiagonal i

/-- A kernel for `m x = y`, of which the matrix has the diagonal of `l`. -/
structure Solver (l : Lower ℝ n) (m : Matrix (Fin n) (Fin n) ℝ)
    (extreme : Set (Fin n) → Fin n → Prop) (solve : Array ℝ → Except LinearError (Vector ℝ n)) :
    Prop where
  mismatch : ∀ y : Array ℝ, y.size ≠ n → solve y = .error (.dimensionMismatch n y.size)
  refuses : ∀ y : Vector ℝ n, l.Refuses extreme (solve y.toArray)
  solution : ∀ x y : Vector ℝ n, solve y.toArray = .ok x →
    m *ᵥ coords x = coords y ∧ ∀ v, m *ᵥ v = coords y → v = coords x

/-- An explicit inverse does what the kernels do, and in the same cases. -/
structure Inverter (l : Lower ℝ n) : Prop where
  refuses : l.Refuses IsLeast l.invert
  inverse : ∀ x, l.invert = .ok x → x.matrix * l.matrix = 1 ∧ l.matrix * x.matrix = 1
  above : ∀ x, l.invert = .ok x → ∀ i j, i < j → x.matrix i j = 0
  solve : ∀ x, l.invert = .ok x → ∀ y : Vector ℝ n, l.solveArray y.toArray = .ok (x.mulVec y)
  solveTranspose : ∀ x, l.invert = .ok x → ∀ y : Vector ℝ n,
    l.solveTransposeArray y.toArray = .ok (x.transposeMulVec y)

theorem refuses_answer {β : Type} {extreme : Set (Fin n) → Fin n → Prop} {zero? : Option (Fin n)}
    (hnone : zero? = none ↔ ∀ i, l.get i i ≠ 0)
    (hsome : ∀ i, zero? = some i → extreme {i | l.get i i = 0} i)
    (hmem : ∀ {s : Set (Fin n)} {i}, extreme s i → i ∈ s)
    (hunique : ∀ {s : Set (Fin n)} {i j}, extreme s i → extreme s j → i = j) (b : β) :
    l.Refuses extreme (answer zero? b) := by
  cases zero? with
  | none =>
    refine ⟨⟨fun _ => hnone.mp rfl, fun _ => ⟨b, rfl⟩⟩, fun e => ⟨nofun, ?_⟩⟩
    rintro ⟨i, hi, -⟩
    exact absurd (hmem hi) (hnone.mp rfl i)
  | some i =>
    have hi := hsome i rfl
    refine ⟨⟨nofun, fun h => absurd (hmem hi) (h i)⟩, fun e => ⟨fun h => ?_, ?_⟩⟩
    · exact ⟨i, hi, (Except.error.inj h).symm⟩
    · rintro ⟨j, hj, rfl⟩
      rw [hunique hi hj]
      rfl

theorem refuses_first {β : Type} (l : Lower ℝ n) (b : β) :
    l.Refuses IsLeast (answer l.firstZero? b) :=
  refuses_answer firstZero?_eq_none_iff (fun _ => isLeast_of_firstZero?) And.left IsLeast.unique b

theorem refuses_last {β : Type} (l : Lower ℝ n) (b : β) :
    l.Refuses IsGreatest (answer l.lastZero? b) :=
  refuses_answer lastZero?_eq_none_iff (fun _ => isGreatest_of_lastZero?) And.left
    IsGreatest.unique b

theorem solver_of_kernel {m : Matrix (Fin n) (Fin n) ℝ} {extreme : Set (Fin n) → Fin n → Prop}
    {zero? : Option (Fin n)} {kernel : Vector ℝ n → Vector ℝ n}
    (hrefuses : ∀ y, l.Refuses extreme (answer zero? (kernel y)))
    (hkernel : (∀ i, l.get i i ≠ 0) → ∀ y, m *ᵥ coords (kernel y) = coords y)
    (hdet : (∀ i, l.get i i ≠ 0) → m.det ≠ 0) :
    l.Solver m extreme fun y => ofLength n y >>= fun y => answer zero? (kernel y) := by
  have hlength (y : Vector ℝ n) : (ofLength n y.toArray >>= fun y => answer zero? (kernel y)) =
      answer zero? (kernel y) := by
    rw [ofLength, dif_pos y.size_toArray]
    rfl
  refine ⟨fun y hy => ?mismatch, fun y => ?refuses, fun x y h => ?solution⟩
  case mismatch =>
    rw [ofLength, dif_neg hy]
    rfl
  case refuses =>
    rw [hlength]
    exact hrefuses y
  case solution =>
    rw [hlength] at h
    have hl := (hrefuses y).1.mp ⟨x, h⟩
    obtain rfl := eq_of_answer h
    refine ⟨hkernel hl y, fun v hv => ?_⟩
    have hunit := (isUnit_iff_isUnit_det m).mpr (hdet hl).isUnit
    exact mulVec_injective_of_isUnit hunit (hv.trans (hkernel hl y).symm)

theorem solver_solveArray (l : Lower ℝ n) : l.Solver l.matrix IsLeast l.solveArray :=
  solver_of_kernel (fun y => l.refuses_first (l.forward y)) matrix_mulVec_forward det_ne_zero

theorem solver_solveTransposeArray (l : Lower ℝ n) :
    l.Solver l.matrixᵀ IsGreatest l.solveTransposeArray :=
  solver_of_kernel (fun y => l.refuses_last (l.backward y)) matrix_transpose_mulVec_backward
    fun hl => by rw [det_transpose]; exact det_ne_zero hl

theorem Solver.answer_eq {m : Matrix (Fin n) (Fin n) ℝ} {extreme : Set (Fin n) → Fin n → Prop}
    {solve : Array ℝ → Except LinearError (Vector ℝ n)} (h : l.Solver m extreme solve)
    (hl : ∀ i, l.get i i ≠ 0) {x y : Vector ℝ n} (hx : m *ᵥ coords x = coords y) :
    solve y.toArray = .ok x := by
  obtain ⟨z, hz⟩ := (h.refuses y).1.mpr hl
  rw [hz, coords_injective ((h.solution z y hz).2 _ hx)]

theorem inverter (l : Lower ℝ n) : l.Inverter := by
  have hrefuses : l.Refuses IsLeast l.invert := l.refuses_first _
  have hinverse (x : Lower ℝ n) (hx : l.invert = .ok x) :
      x.matrix * l.matrix = 1 ∧ l.matrix * x.matrix = 1 := by
    obtain ⟨x', hx', hright⟩ := invert_spec (hrefuses.1.mp ⟨x, hx⟩)
    obtain rfl := Except.ok.inj (hx'.symm.trans hx)
    exact ⟨mul_eq_one_comm.mp hright, hright⟩
  refine ⟨hrefuses, hinverse, fun x _ i j => x.get_of_lt, fun x hx y => ?_, fun x hx y => ?_⟩
  · apply l.solver_solveArray.answer_eq (hrefuses.1.mp ⟨x, hx⟩)
    rw [coords_mulVec, mulVec_mulVec, (hinverse x hx).2, one_mulVec]
  · apply l.solver_solveTransposeArray.answer_eq (hrefuses.1.mp ⟨x, hx⟩)
    rw [coords_transposeMulVec, mulVec_mulVec, ← transpose_mul, (hinverse x hx).1, transpose_one,
      one_mulVec]

end Lower

/-- In exact arithmetic the two substitutions and the explicit inverse agree: they answer for the
same triangles, with the one solution, and otherwise tell the zero on the diagonal that their
loop meets first. -/
theorem triangular_kernels (l : Lower ℝ n) :
    l.Solver l.matrix IsLeast l.solveArray ∧ l.Solver l.matrixᵀ IsGreatest l.solveTransposeArray ∧
      l.Inverter ∧ l.Loops :=
  ⟨l.solver_solveArray, l.solver_solveTransposeArray, l.inverter, l.loops⟩

end LeastSquares
