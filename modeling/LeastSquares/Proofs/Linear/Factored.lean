import LeastSquares.Proofs.Linear.Graded
import Mathlib.LinearAlgebra.UnitaryGroup

namespace LeastSquares

open Matrix

variable {m n : Nat}

theorem coords_identity (j : Fin m) :
    coords ((Dense.identity : Dense ℝ m m).column j) = Pi.single j 1 := by
  funext i
  simp [coords, Dense.column, Dense.identity, Dense.ofFn, Pi.single_apply]

namespace PivotedQr

variable (f : PivotedQr ℝ m n)

theorem coords_q (j : Fin m) :
    coords (f.q.column j) = coords (f.steps.foldr f.reflectAt (Dense.identity.column j)) := by
  simp [q, Dense.column]

theorem foldr_dotProduct (l : List (Fin (min m n))) (u v : Vector ℝ m) :
    coords (l.foldr f.reflectAt u) ⬝ᵥ coords v =
      coords u ⬝ᵥ coords (l.foldl (fun v k => f.reflectAt k v) v) := by
  induction l generalizing v with
  | nil => rfl
  | cons k l ih =>
    rw [List.foldr_cons, List.foldl_cons, ← ih, reflectAt, dotProduct_reflect_comm]
    rfl

theorem transpose_q_mulVec (b : Vector ℝ m) :
    f.q.matrixᵀ *ᵥ coords b = coords (f.transposeMul b) := by
  funext j
  change coords (f.q.column j) ⬝ᵥ coords b = _
  rw [coords_q, foldr_dotProduct, coords_identity, single_one_dotProduct]
  rfl

variable {f}

theorem foldr_dotProduct_foldr {l : List (Fin (min m n))}
    (hl : ∀ k ∈ l, Mirrors (row k) f.sweep.columns[col k]) (u v : Vector ℝ m) :
    coords (l.foldr f.reflectAt u) ⬝ᵥ coords (l.foldr f.reflectAt v) = coords u ⬝ᵥ coords v := by
  induction l with
  | nil => rfl
  | cons k l ih =>
    obtain ⟨hk, hl⟩ := List.forall_mem_cons.mp hl
    rw [List.foldr_cons, List.foldr_cons, ← ih hl]
    exact hk.dotProduct_reflect _ _

variable (f) in
noncomputable def padded : Matrix (Fin m) (Fin n) ℝ := of fun i j =>
  if h : (i : Nat) < n then f.r.get ⟨i, h⟩ j else 0

variable (f) in
noncomputable def remainder (a : Dense ℝ m n) : Matrix (Fin m) (Fin n) ℝ :=
  f.q.matrixᵀ * a.matrix.submatrix id (fun j => f.sweep.permutation[j]) - f.padded

theorem get_r (i j : Fin n) : f.r.get i j = f.entry i j := by
  simp [r, Dense.get, Dense.ofFn]

theorem padded_apply (i : Fin m) (j : Fin n) : f.padded i j =
    if (i : Nat) < f.rank ∧ (i : Nat) ≤ j then
      if (i : Nat) = j then f.sweep.diagonal[j] else f.sweep.columns[j][i]
    else 0 := by
  have hrank : f.rank ≤ n := f.rank_le.trans (Nat.min_le_right m n)
  by_cases hi : (i : Nat) < n
  · have hpadded : f.padded i j = f.entry ⟨i, hi⟩ j := (dif_pos hi).trans (get_r _ _)
    have hentry : f.entry ⟨i, hi⟩ j = if (i : Nat) < f.rank ∧ (i : Nat) ≤ j then
        if (⟨i, hi⟩ : Fin n) = j then f.sweep.diagonal[(⟨i, hi⟩ : Fin n)]
        else f.sweep.columns[j][i]
      else 0 := rfl
    rw [hpadded, hentry]
    by_cases htreated : (i : Nat) < f.rank ∧ (i : Nat) ≤ j
    · rw [if_pos htreated, if_pos htreated]
      by_cases hij : (i : Nat) = j
      · have heq : (⟨i, hi⟩ : Fin n) = j := Fin.ext hij
        rw [if_pos hij, heq, if_pos rfl]
      · rw [if_neg hij, if_neg fun h => hij (congrArg Fin.val h)]
    · rw [if_neg htreated, if_neg htreated]
  · have hpadded : f.padded i j = 0 := dif_neg hi
    rw [hpadded, if_neg fun h => hi (h.1.trans_le hrank)]

section

variable {a : Dense ℝ m n} {fixed : Nat} (hf : f.sweep.Swept a fixed f.rank)
include hf

theorem q_mem_orthogonalGroup : f.q.matrix ∈ orthogonalGroup (Fin m) ℝ := by
  rw [mem_orthogonalGroup_iff']
  ext i j
  have hmirrors : ∀ k ∈ f.steps, Mirrors (row k) f.sweep.columns[col k] :=
    fun k hk => hf.mirrors k (mem_take_finRange.mp hk)
  change coords (f.q.column i) ⬝ᵥ coords (f.q.column j) = _
  rw [coords_q, coords_q, foldr_dotProduct_foldr hmirrors, coords_identity, coords_identity,
    single_one_dotProduct, Pi.single_apply, one_apply]

theorem product_apply (i : Fin m) (j : Fin n) :
    (f.q.matrixᵀ * a.matrix.submatrix id (fun j => f.sweep.permutation[j])) i j =
      f.sweep.view f.rank j i := by
  have hcolumn := congrFun (f.transpose_q_mulVec (a.column f.sweep.permutation[j])) i
  rw [hf.view_eq]
  exact hcolumn

theorem remainder_apply (i : Fin m) (j : Fin n) : f.remainder a i j =
    if f.rank ≤ i ∧ f.rank ≤ j then f.sweep.columns[j][i] else 0 := by
  rw [remainder, Matrix.sub_apply, product_apply hf, padded_apply, Sweep.view]
  by_cases hj : (j : Nat) < f.rank
  · have hnot : ¬(f.rank ≤ i ∧ f.rank ≤ j) := fun h => Nat.not_le.mpr hj h.2
    rw [if_pos hj, if_neg hnot]
    rcases lt_trichotomy (i : Nat) j with hij | hij | hij
    · rw [if_pos hij, if_pos ⟨hij.trans hj, hij.le⟩, if_neg hij.ne, sub_self]
    · rw [if_neg hij.not_lt, if_pos hij, if_pos ⟨hij.trans_lt hj, hij.le⟩, if_pos hij, sub_self]
    · rw [if_neg hij.not_gt, if_neg hij.ne', if_neg fun h => Nat.not_le.mpr hij h.2, sub_self]
  · have hj' : f.rank ≤ j := Nat.not_lt.mp hj
    rw [if_neg hj]
    by_cases hi : (i : Nat) < f.rank
    · have hij : (i : Nat) < j := hi.trans_le hj'
      rw [if_pos ⟨hi, hij.le⟩, if_neg hij.ne, if_neg fun h => Nat.not_le.mpr hi h.1, sub_self]
    · rw [if_neg fun h => hi h.1, if_pos ⟨Nat.not_lt.mp hi, hj'⟩, sub_zero]

theorem sum_remainder_sq (j : Fin n) : ∑ i, f.remainder a i j ^ 2 =
    if f.rank ≤ j then f.sweep.remaining[j] else 0 := by
  by_cases hj : f.rank ≤ j
  · rw [if_pos hj, hf.remaining_eq j hj]
    apply Finset.sum_congr rfl
    intro i _
    rw [remainder_apply hf, tail, sq]
    by_cases hi : f.rank ≤ i
    · rw [if_pos ⟨hi, hj⟩, if_pos hi]
      rfl
    · rw [if_neg fun h => hi h.1, if_neg hi]
  · rw [if_neg hj]
    apply Finset.sum_eq_zero
    intro i _
    rw [remainder_apply hf, if_neg fun h => hj h.2, sq, zero_mul]

end

end PivotedQr

namespace Dense

variable (a : Dense ℝ m n)

theorem longest_eq : a.longest = a.columns.toList.foldl (fun l c => max l (Geometry.norm c)) 0 :=
  (Vector.foldl_toList _).symm

theorem longest_nonneg : 0 ≤ a.longest := by
  rw [longest_eq]
  exact (foldl_max Geometry.norm a.columns.toList 0).1

theorem isGreatest_longest (j : Fin n) :
    IsGreatest (Set.range fun j => Geometry.norm (a.column j)) a.longest := by
  obtain ⟨-, hall, hfound⟩ := foldl_max Geometry.norm a.columns.toList (0 : ℝ)
  rw [← longest_eq] at hall hfound
  have hbound (l : Fin n) : Geometry.norm (a.column l) ≤ a.longest :=
    hall _ (Vector.mem_toList_iff.mpr (Vector.getElem_mem l.isLt))
  refine ⟨?_, Set.forall_mem_range.mpr hbound⟩
  rcases hfound with hzero | ⟨v, hv, heq⟩
  · exact ⟨j, le_antisymm (hbound j) (hzero ▸ norm_nonneg _)⟩
  · obtain ⟨l, hl, rfl⟩ := Vector.getElem_of_mem (Vector.mem_toList_iff.mp hv)
    exact ⟨⟨l, hl⟩, heq⟩

end Dense

namespace Sweep

variable {w : Sweep ℝ m n} {longest : ℝ} {j : Fin n} {status : RankStatus}

theorem rankTolerance_nonneg : (0 : ℝ) ≤ rankTolerance := by
  have hsqrt : (0 : ℝ) ≤ Scalar.sqrt (999 / 1000 * Scalar.epsilon) := Real.sqrt_nonneg _
  unfold rankTolerance
  positivity

theorem obstacle_cases (hlongest : 0 ≤ longest) (h : w.obstacle longest j = some status) :
    status = .deficient j ∧ w.tailNorm j ≤ rankTolerance * longest ∨
      status = .underflow j ∧ w.tailNorm j < sqrtTiny := by
  unfold obstacle at h
  dsimp only at h
  split at h
  · next hsmall =>
    refine .inl ⟨(Option.some.inj h).symm, ?_⟩
    rcases hsmall with hzero | hle
    · rw [beq_iff_eq.mp hzero]
      exact mul_nonneg rankTolerance_nonneg hlongest
    · exact hle
  · split at h
    · next htiny => exact .inr ⟨(Option.some.inj h).symm, htiny⟩
    · cases h

end Sweep

/-- The factors that are read off a sweep, and what `R` misses of the matrix when the sweep
stopped early. -/
structure PivotedQr.Factored (f : PivotedQr ℝ m n) (a : Dense ℝ m n) (fixed : Nat) : Prop where
  permutation : Function.Bijective fun j : Fin n => f.sweep.permutation[j]
  kept : ∀ j : Fin n, (j : Nat) < fixed → f.sweep.permutation[j] = j
  orthogonal : f.q.matrix ∈ orthogonalGroup (Fin m) ℝ
  transpose : ∀ b, f.q.matrixᵀ *ᵥ coords b = coords (f.transposeMul b)
  upper : ∀ i j : Fin n, j < i → f.r.get i j = 0
  rank : ∀ i j : Fin n, f.rank ≤ i → f.r.get i j = 0
  remainder : ∀ (i : Fin m) (j : Fin n), (i : Nat) < f.rank ∨ (j : Nat) < f.rank →
    f.remainder a i j = 0
  full : f.status = .fullRank → f.remainder a = 0

/-- The diagonal falls, and what is missed is no longer than the column that was given up. -/
structure PivotedQr.Falling (f : PivotedQr ℝ m n) (a : Dense ℝ m n) : Prop where
  falls : ∀ i j : Fin n, i ≤ j → (j : Nat) < f.rank → |f.sweep.diagonal[j]| ≤ |f.sweep.diagonal[i]|
  ne_zero : ∀ j : Fin n, (j : Nat) < f.rank → f.sweep.diagonal[j] ≠ 0
  deficient : ∀ k, f.status = .deficient k → k = f.rank ∧
    ∃ l, IsGreatest (Set.range fun j => Geometry.norm (a.column j)) l ∧
      ∀ j, √(∑ i, f.remainder a i j ^ 2) ≤ rankTolerance * l
  underflow : ∀ k, f.status = .underflow k → k = f.rank ∧
    ∀ j, √(∑ i, f.remainder a i j ^ 2) < sqrtTiny

namespace PivotedQr

variable {f : PivotedQr ℝ m n} {a : Dense ℝ m n} {fixed : Nat}

theorem Ends.factored (h : Ends a fixed f) : f.Factored a fixed where
  permutation := ⟨h.swept.injective, Finite.surjective_of_injective h.swept.injective⟩
  kept := h.swept.kept
  orthogonal := q_mem_orthogonalGroup h.swept
  transpose := f.transpose_q_mulVec
  upper i j hij := by
    rw [get_r, entry, dif_neg fun hentry => hij.not_ge hentry.2]
  rank i j hi := by
    rw [get_r, entry, dif_neg fun hentry => Nat.not_lt.mpr hi hentry.1]
  remainder i j hij := by
    have hnot : ¬(f.rank ≤ i ∧ f.rank ≤ j) := by omega
    rw [remainder_apply h.swept, if_neg hnot]
  full hfull := by
    ext i j
    rw [remainder_apply h.swept]
    cases h with
    | complete hw =>
      have hnot : ¬(min m n ≤ i ∧ min m n ≤ j) := by omega
      exact if_neg hnot
    | halted hw hstatus => exact absurd hfull (Sweep.obstacle_ne_fullRank hstatus)

theorem sqrt_remainder_le {k : Fin (min m n)} {w : Sweep ℝ m n} {status : RankStatus}
    (hw : a.Reaches 0 k w) (j : Fin n) :
    √(∑ i, remainder ⟨w.chosen 0 k, status, k, Nat.le_of_lt k.isLt⟩ a i j ^ 2) ≤
      (w.chosen 0 k).tailNorm (col k) := by
  have hswept : (w.chosen 0 k).Swept a 0 k := Sweep.swept_chosen hw.swept
  have hnorm : (w.chosen 0 k).tailNorm (col k) ^ 2 = (w.chosen 0 k).remaining[col k] := by
    rw [hswept.remaining_eq _ le_rfl, sq]
    exact norm_drop _ _
  have hchosen : w.chosen 0 k = w.pivot (col k) := if_pos (Nat.zero_le _)
  rw [Real.sqrt_le_iff]
  refine ⟨norm_nonneg _, ?_⟩
  rw [sum_remainder_sq hswept, hnorm]
  dsimp only
  split
  · next hj =>
    rw [hchosen]
    exact Sweep.remaining_pivot_le hj
  · rw [← hnorm]
    exact sq_nonneg _

theorem Ends.falling (h : Ends a 0 f) : f.Falling a := by
  cases h with
  | complete hw =>
    exact ⟨hw.graded.falls, hw.swept.diagonal, nofun, nofun⟩
  | @halted k w status hw hstatus =>
    have hgraded : (w.chosen 0 k).Graded k := by
      have hchosen : w.chosen 0 k = w.pivot (col k) := if_pos (Nat.zero_le _)
      rw [hchosen]
      exact Sweep.graded_pivot (j := col k) hw.graded
    have hcases := Sweep.obstacle_cases a.longest_nonneg hstatus
    refine ⟨hgraded.falls, (Sweep.swept_chosen hw.swept).diagonal, fun l hl => ?_, fun l hl => ?_⟩
    · rcases hcases with ⟨hdeficient, hle⟩ | ⟨hunderflow, -⟩
      · have hplace : l = k := RankStatus.deficient.inj (hl.symm.trans hdeficient)
        exact ⟨hplace, a.longest, a.isGreatest_longest (col k),
          fun j => (sqrt_remainder_le hw j).trans hle⟩
      · cases hl.symm.trans hunderflow
    · rcases hcases with ⟨hdeficient, -⟩ | ⟨hunderflow, hlt⟩
      · cases hl.symm.trans hdeficient
      · have hplace : l = k := RankStatus.underflow.inj (hl.symm.trans hunderflow)
        exact ⟨hplace, fun j => (sqrt_remainder_le hw j).trans_lt hlt⟩

end PivotedQr

/-- In exact arithmetic a factorization of any matrix, with any number of columns that keep their
places, gives an orthogonal `Q` and a triangular `R` with `A Π = Q R` but for what is left where it
stopped. If the longest column is always chosen, the diagonal falls and what is left is short. The
squared lengths that the choice is made by are right before each step. -/
theorem pivotedQr_factored (a : Dense ℝ m n) (fixed : Nat) :
    (a.pivotedQr fixed).Factored a fixed ∧ (a.pivotedQr 0).Falling a ∧
    PivotedQr.Ends a fixed (a.pivotedQr fixed) ∧
    ∀ k w, a.Reaches fixed k w → ∀ j : Fin n, k ≤ j →
      w.remaining[j] = Geometry.norm (w.columns[j].drop k) ^ 2 := by
  refine ⟨(PivotedQr.ends_pivotedQr a fixed).factored, (PivotedQr.ends_pivotedQr a 0).falling,
    PivotedQr.ends_pivotedQr a fixed, fun k w hw j hj => ?_⟩
  rw [hw.swept.remaining_eq j hj, ← square_norm_drop, square, sq]

end LeastSquares
