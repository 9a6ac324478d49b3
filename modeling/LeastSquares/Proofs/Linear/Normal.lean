import LeastSquares.Proofs.Linear.Definite
import LeastSquares.Proofs.Linear.Ends

namespace LeastSquares

open Matrix

variable {m n : Nat}

def Dense.matrix (a : Dense ℝ m n) : Matrix (Fin m) (Fin n) ℝ := of a.get

namespace Sweep

/-- The columns as the reflections before place `k` leave them. The entries below the diagonal
of a column that was treated are zero, though its reflection vector is kept in their place. -/
noncomputable def view (w : Sweep ℝ m n) (k : Nat) (j : Fin n) : Fin m → ℝ := fun i =>
  if (j : Nat) < k then
    if (i : Nat) < j then w.columns[j][i] else if (i : Nat) = j then w.diagonal[j] else 0
  else w.columns[j][i]

theorem view_of_le {w : Sweep ℝ m n} {k : Nat} {j : Fin n} (h : k ≤ j) :
    w.view k j = coords w.columns[j] := by
  funext i
  rw [view, if_neg (Nat.not_lt.mpr h)]
  rfl

/-- The angles of the columns are those of the matrix, whatever was done to them. -/
structure Factors (a : Dense ℝ m n) (k : Nat) (w : Sweep ℝ m n) : Prop where
  gram : ∀ i j, w.view k i ⬝ᵥ w.view k j =
    coords (a.column w.permutation[i]) ⬝ᵥ coords (a.column w.permutation[j])
  injective : Function.Injective fun j : Fin n => w.permutation[j]
  diagonal : ∀ j : Fin n, j < k → w.diagonal[j] ≠ 0

variable {a : Dense ℝ m n} {w : Sweep ℝ m n}

theorem factors_start (a : Dense ℝ m n) : Factors a 0 (start a) where
  gram i j := by
    have hplace (j : Fin n) : (start a).permutation[j] = j := by simp [start]
    rw [view_of_le (Nat.zero_le _), view_of_le (Nat.zero_le _), hplace, hplace]
    rfl
  injective i j h := by simpa [start] using h
  diagonal j hj := absurd hj (Nat.not_lt_zero _)

theorem le_longest (w : Sweep ℝ m n) (j : Fin n) : j ≤ w.longest j := by
  have hfold (l : List (Fin n)) (k : Fin n) (hk : j ≤ k) (hl : ∀ i ∈ l, j ≤ i) :
      j ≤ l.foldl (fun k i => if w.remaining[k] < w.remaining[i] then i else k) k := by
    induction l generalizing k with
    | nil => exact hk
    | cons i l ih =>
      obtain ⟨hi, hl⟩ := List.forall_mem_cons.mp hl
      apply ih _ _ hl
      dsimp only
      split
      · exact hi
      · exact hk
  exact hfold _ j le_rfl fun i hi => (mem_above.mp hi).le

theorem getElem_swap {β : Type} (x : Vector β n) (i j k : Fin n) :
    (x.swap i j i.isLt j.isLt)[k] = x[Equiv.swap i j k] := by
  simp only [getElem_place, Vector.getElem_swap, Equiv.swap_apply_def, Fin.ext_iff]
  split
  · rfl
  · split <;> rfl

section

variable {k : Nat} {i j : Fin n} (hi : k ≤ i) (hj : k ≤ j)
include hi hj

theorem swap_apply_of_lt {l : Fin n} (hl : (l : Nat) < k) : Equiv.swap i j l = l := by
  apply Equiv.swap_apply_of_ne_of_ne
  · exact fun h => by subst h; omega
  · exact fun h => by subst h; omega

theorem le_swap_apply {l : Fin n} (hl : k ≤ l) : k ≤ Equiv.swap i j l := by
  rw [Equiv.swap_apply_def]
  split
  · exact hj
  · split
    · exact hi
    · exact hl

theorem columns_swap_of_lt {l : Fin n} (hl : (l : Nat) < k) :
    (w.swap i j).columns[l] = w.columns[l] := by
  rw [← congrArg (w.columns[·]) (swap_apply_of_lt hi hj hl)]
  exact getElem_swap _ _ _ _

theorem view_swap (l : Fin n) : (w.swap i j).view k l = w.view k (Equiv.swap i j l) := by
  by_cases hl : k ≤ l
  · rw [view_of_le hl, view_of_le (le_swap_apply hi hj hl)]
    exact congrArg coords (getElem_swap _ _ _ _)
  · have hlt : (l : Nat) < k := Nat.not_le.mp hl
    rw [swap_apply_of_lt hi hj hlt]
    funext r
    rw [view, view, columns_swap_of_lt hi hj hlt]
    rfl

theorem factors_swap (hw : Factors a k w) : Factors a k (w.swap i j) := by
  have hpermutation (l : Fin n) : (w.swap i j).permutation[l] = w.permutation[Equiv.swap i j l] :=
    getElem_swap _ _ _ _
  refine ⟨fun r l => ?_, fun r l h => ?_, hw.diagonal⟩
  · rw [view_swap hi hj, view_swap hi hj, hpermutation, hpermutation]
    exact hw.gram _ _
  · dsimp only at h
    rw [hpermutation, hpermutation] at h
    exact (Equiv.swap i j).injective (hw.injective h)

end

theorem factors_pivot {j : Fin n} (hw : Factors a j w) : Factors a j (w.pivot j) :=
  factors_swap le_rfl (w.le_longest j) hw

theorem reflectColumn_spec (w : Sweep ℝ m n) (i : Fin m) (axis : Vector ℝ m) (k : Fin n) :
    (w.reflectColumn i axis k).columns =
        w.columns.set k (reflect i axis w.columns[k]) k.isLt ∧
      (w.reflectColumn i axis k).diagonal = w.diagonal ∧
      (w.reflectColumn i axis k).permutation = w.permutation := by
  unfold reflectColumn
  dsimp only
  split <;> exact ⟨rfl, rfl, rfl⟩

theorem foldl_reflectColumn (i : Fin m) (axis : Vector ℝ m) {l : List (Fin n)} (hl : l.Nodup)
    (w : Sweep ℝ m n) :
    let w' := l.foldl (fun w k => w.reflectColumn i axis k) w
    (∀ k : Fin n, w'.columns[k] =
        if k ∈ l then reflect i axis w.columns[k] else w.columns[k]) ∧
      w'.diagonal = w.diagonal ∧ w'.permutation = w.permutation := by
  induction l generalizing w with
  | nil => simp
  | cons r l ih =>
    obtain ⟨hr, hl⟩ := List.nodup_cons.mp hl
    obtain ⟨hcolumns, hdiagonal, hpermutation⟩ := w.reflectColumn_spec i axis r
    obtain ⟨hc, hd, hp⟩ := ih hl (w.reflectColumn i axis r)
    refine ⟨fun k => ?_, hd.trans hdiagonal, hp.trans hpermutation⟩
    rw [List.foldl_cons, hc k, hcolumns]
    by_cases hk : k = r
    · subst hk
      simp [hr]
    · have hne : (r : Nat) ≠ k := fun h => hk (Fin.ext h.symm)
      simp [hk, Vector.getElem_set_ne _ _ hne]

/-- The length of a column from the diagonal on, with the sign of the entry there. -/
noncomputable def signed (w : Sweep ℝ m n) (i : Fin m) (j : Fin n) : ℝ :=
  if w.columns[j][i] < 0 then -w.tailNorm j else w.tailNorm j

theorem axis_signed {i : Fin m} {j : Fin n} (hij : (i : Nat) = j) (hs : w.tailNorm j ≠ 0) :
    Axis i (w.signed i j) w.columns[j] := by
  have hpos : 0 < w.tailNorm j := (norm_nonneg _).lt_of_ne hs.symm
  have hsquare : w.tailNorm j * w.tailNorm j =
      tail i (coords w.columns[j]) ⬝ᵥ tail i (coords w.columns[j]) := by
    rw [hij]
    exact norm_drop _ _
  unfold signed
  split
  · next hneg =>
    refine ⟨neg_ne_zero.mpr hs, by rw [neg_mul_neg, hsquare], ?_⟩
    exact div_nonneg_of_nonpos hneg.le (neg_nonpos.mpr hpos.le)
  · next hneg => exact ⟨hs, hsquare, div_nonneg (not_lt.mp hneg) hpos.le⟩

theorem eliminate_spec (w : Sweep ℝ m n) (i : Fin m) (j : Fin n) :
    (∀ k, k < j → (w.eliminate i j).columns[k] = w.columns[k]) ∧
      (w.eliminate i j).columns[j] = reflector i (w.signed i j) w.columns[j] ∧
      (∀ k, j < k → (w.eliminate i j).columns[k] =
        reflect i (reflector i (w.signed i j) w.columns[j]) w.columns[k]) ∧
      (w.eliminate i j).diagonal = w.diagonal.set j (-w.signed i j) j.isLt ∧
      (w.eliminate i j).permutation = w.permutation := by
  obtain ⟨hcolumns, hdiagonal, hpermutation⟩ := foldl_reflectColumn i
    (reflector i (w.signed i j) w.columns[j]) (nodup_above j)
    { w with
      columns := w.columns.set j (reflector i (w.signed i j) w.columns[j])
      diagonal := w.diagonal.set j (-w.signed i j) }
  have hset (k : Fin n) (hk : k ≠ j) :
      (w.columns.set j (reflector i (w.signed i j) w.columns[j]))[k] = w.columns[k] :=
    Vector.getElem_set_ne _ _ fun h => hk (Fin.ext h.symm)
  refine ⟨fun k hk => ?_, ?_, fun k hk => ?_, hdiagonal, hpermutation⟩
  · refine (hcolumns k).trans ?_
    rw [if_neg (by rw [mem_above]; exact hk.not_gt), hset k hk.ne]
  · refine (hcolumns j).trans ?_
    rw [if_neg (by rw [mem_above]; exact lt_irrefl j)]
    exact Vector.getElem_set_self _
  · refine (hcolumns k).trans ?_
    rw [if_pos (mem_above.mpr hk), hset k hk.ne']

theorem view_eliminate_of_lt {i : Fin m} {j k : Fin n} (hk : k < j) :
    (w.eliminate i j).view (j + 1) k = w.view j k := by
  obtain ⟨hbefore, -, -, hdiagonal, -⟩ := w.eliminate_spec i j
  have hlt : (k : Nat) < j := hk
  have hdiag : (w.eliminate i j).diagonal[k] = w.diagonal[k] := by
    rw [hdiagonal]
    exact Vector.getElem_set_ne _ _ (Nat.ne_of_gt hlt)
  funext r
  rw [view, view, if_pos (Nat.lt_succ_of_lt hlt), if_pos hlt, hbefore k hk, hdiag]

theorem view_dotProduct_tail {i : Fin m} {j k : Fin n} (hij : (i : Nat) = j) (hk : k < j)
    (v : Fin m → ℝ) : w.view j k ⬝ᵥ tail i v = 0 := by
  have hlt : (k : Nat) < j := hk
  apply Finset.sum_eq_zero
  intro r _
  by_cases hr : (i : Nat) ≤ r
  · rw [view, if_pos hlt, if_neg (by omega), if_neg (by omega), zero_mul]
  · rw [tail, if_neg hr, mul_zero]

theorem view_eliminate_self {i : Fin m} {j : Fin n} (hij : (i : Nat) = j) :
    (w.eliminate i j).view (j + 1) j =
      coords w.columns[j] - tail i (coords w.columns[j]) - Pi.single i (w.signed i j) := by
  obtain ⟨-, hself, -, hdiagonal, -⟩ := w.eliminate_spec i j
  funext r
  rw [view, if_pos (Nat.lt_succ_self _), hself, hdiagonal]
  simp only [Pi.sub_apply, tail, Pi.single_apply, Fin.ext_iff, hij]
  rcases lt_trichotomy (r : Nat) j with hr | hr | hr
  · have hlt : r < i := by
      change (r : Nat) < i
      omega
    have hentry := coords_reflector i (w.signed i j) w.columns[j] r
    rw [if_pos hlt] at hentry
    rw [if_pos hr, if_neg (Nat.not_le.mpr hr), if_neg hr.ne, sub_zero, sub_zero]
    exact hentry
  · have hset : (w.diagonal.set j (-w.signed i j))[j] = -w.signed i j :=
      Vector.getElem_set_self _
    rw [if_neg hr.not_lt, if_pos hr, if_pos hr.ge, if_pos hr, hset]
    ring
  · rw [if_neg hr.not_gt, if_neg hr.ne', if_pos hr.le, if_neg hr.ne']
    ring

theorem view_eliminate {i : Fin m} {j : Fin n} (hij : (i : Nat) = j) (hs : w.tailNorm j ≠ 0)
    (k : Fin n) : (w.eliminate i j).view (j + 1) k =
      mirror (tail i (coords (reflector i (w.signed i j) w.columns[j])))
        (reflector i (w.signed i j) w.columns[j])[i] (w.view j k) := by
  rcases lt_trichotomy k j with hk | rfl | hk
  · rw [view_eliminate_of_lt hk, mirror_of_orthogonal _ (view_dotProduct_tail hij hk _)]
  · rw [view_of_le le_rfl, (axis_signed hij hs).mirror_self]
    exact view_eliminate_self hij
  · obtain ⟨-, -, hafter, -⟩ := w.eliminate_spec i j
    rw [view_of_le (Nat.succ_le_of_lt hk), view_of_le (Nat.le_of_lt hk), hafter k hk,
      coords_reflect]

theorem factors_eliminate {i : Fin m} {j : Fin n} (hij : (i : Nat) = j) (hw : Factors a j w)
    (hs : w.tailNorm j ≠ 0) : Factors a (j + 1) (w.eliminate i j) := by
  have haxis := axis_signed hij hs
  obtain ⟨-, -, -, hdiagonal, hpermutation⟩ := w.eliminate_spec i j
  refine ⟨fun k l => ?_, ?_, fun k hk => ?_⟩
  · rw [view_eliminate hij hs, view_eliminate hij hs,
      mirror_dotProduct haxis.pivot_ne_zero haxis.dotProduct_self, hpermutation]
    exact hw.gram k l
  · rw [hpermutation]
    exact hw.injective
  · rw [hdiagonal]
    rcases Nat.lt_succ_iff_lt_or_eq.mp hk with hk | hk
    · have hne : (j : Nat) ≠ k := fun h => by omega
      rw [getElem_place, Vector.getElem_set_ne _ _ hne]
      exact hw.diagonal k hk
    · obtain rfl : k = j := Fin.ext hk
      rw [getElem_place, Vector.getElem_set_self]
      exact neg_ne_zero.mpr haxis.ne_zero

theorem factors_chosen {fixed : Nat} {x : Fin (min m n)} (hw : Factors a x w) :
    Factors a x (w.chosen fixed x) := by
  unfold chosen
  split
  · exact factors_pivot (j := col x) hw
  · exact hw

end Sweep

theorem Dense.Reaches.factors {a : Dense ℝ m n} {fixed k : Nat} {w : Sweep ℝ m n}
    (h : a.Reaches fixed k w) : w.Factors a k := by
  induction h with
  | start => exact Sweep.factors_start a
  | @eliminate k w _ henough ih =>
    exact Sweep.factors_eliminate (i := row k) (j := col k) rfl (Sweep.factors_chosen ih)
      (Sweep.tailNorm_ne_zero henough)

namespace Symmetric

section

variable (b : Symmetric ℝ n) {q : Vector (Fin n) n}
  (hq : Function.Injective fun j : Fin n => q[j])
include hq

theorem get_foldl_set (i : Fin n) (l : List (Fin n)) (c : Symmetric ℝ n) (r s : Fin n) :
    (l.foldl (fun c j => c.set q[i] q[j] (b.get i j)) c).get q[r] q[s] =
      if r = i ∧ s ∈ l ∨ s = i ∧ r ∈ l then b.get r s else c.get q[r] q[s] := by
  induction l generalizing c with
  | nil => simp
  | cons x l ih =>
    rw [List.foldl_cons, ih, get_set]
    have hplace (i j : Fin n) : q[i] = q[j] ↔ i = j := ⟨fun h => hq h, fun h => h ▸ rfl⟩
    simp only [hplace, List.mem_cons]
    have hcomm := b.get_comm
    grind

theorem get_permuted (r s : Fin n) : (b.permuted q).get q[r] q[s] = b.get r s := by
  have hfold (l : List (Fin n)) (c : Symmetric ℝ n) :
      (l.foldl (fun c i => (upTo i).foldl (fun c j => c.set q[i] q[j] (b.get i j)) c) c).get
        q[r] q[s] = if r ∈ l ∧ s ≤ r ∨ s ∈ l ∧ r ≤ s then b.get r s else c.get q[r] q[s] := by
    induction l generalizing c with
    | nil => simp
    | cons x l ih =>
      rw [List.foldl_cons, ih, b.get_foldl_set hq]
      simp only [mem_upTo, List.mem_cons]
      grind
  have hall : r ∈ List.finRange n ∧ s ≤ r ∨ s ∈ List.finRange n ∧ r ≤ s := by
    rcases le_total s r with h | h
    · exact .inl ⟨List.mem_finRange r, h⟩
    · exact .inr ⟨List.mem_finRange s, h⟩
  rw [permuted, hfold, if_pos hall]

end

end Symmetric

theorem Lower.timesTranspose_matrix (l : Lower ℝ n) :
    l.timesTranspose.matrix = l.matrix * l.matrixᵀ := by
  apply Symmetric.matrix_eq_of_le (isSymm_mul_transpose_self _)
  intro i j hj
  rw [l.mul_transpose_apply, timesTranspose, Symmetric.get_ofFn, if_pos hj,
    sumOver_eq_sum (nodup_upTo j), Cholesky.product]
  congr 1
  ext k
  simp [mem_upTo]

theorem Dense.dotProduct_column (a : Dense ℝ m n) (i j : Fin n) :
    coords (a.column i) ⬝ᵥ coords (a.column j) = (a.matrixᵀ * a.matrix) i j := rfl

namespace PivotedQr

variable {f : PivotedQr ℝ m n}

theorem entry_eq (hmn : n ≤ m) (hrank : f.rank = n) (i j : Fin n) :
    f.entry i j = f.sweep.view n j (i.castLE hmn) := by
  unfold entry Sweep.view
  rw [if_pos j.isLt]
  rcases lt_trichotomy i j with h | rfl | h
  · have hlt : (i : Nat) < j := h
    have habove : ((i.castLE hmn : Fin m) : Nat) < j := hlt
    rw [dif_pos ⟨lt_of_lt_of_eq i.isLt hrank.symm, h.le⟩, if_neg h.ne, if_pos habove]
    rfl
  · have hnot : ¬((i.castLE hmn : Fin m) : Nat) < i := lt_irrefl (i : Nat)
    have hon : ((i.castLE hmn : Fin m) : Nat) = i := rfl
    rw [dif_pos ⟨lt_of_lt_of_eq i.isLt hrank.symm, le_rfl⟩, if_pos rfl, if_neg hnot, if_pos hon]
  · have hlt : (j : Nat) < i := h
    have hnot : ¬((i.castLE hmn : Fin m) : Nat) < j := Nat.not_lt.mpr hlt.le
    have hne : ((i.castLE hmn : Fin m) : Nat) ≠ j := hlt.ne'
    rw [dif_neg fun hij => h.not_ge hij.2, if_neg hnot, if_neg hne]

theorem get_rTranspose (f : PivotedQr ℝ m n) (i j : Fin n) :
    f.rTranspose.get i j = f.entry j i := by
  rw [rTranspose, Lower.get_ofFn]
  split
  · rfl
  · next h =>
    unfold entry
    rw [dif_neg fun hij => h hij.2]

theorem rTranspose_mul (hmn : n ≤ m) (hrank : f.rank = n) (i j : Fin n) :
    (f.rTranspose.matrix * f.rTranspose.matrixᵀ) i j =
      f.sweep.view n i ⬝ᵥ f.sweep.view n j := by
  have hbeyond (r : Fin m) (hr : n ≤ r) : f.sweep.view n i r * f.sweep.view n j r = 0 := by
    have hi := i.isLt
    rw [Sweep.view, if_pos hi, if_neg (by omega), if_neg (by omega), zero_mul]
  rw [dotProduct, sum_castLE hmn hbeyond, Matrix.mul_apply]
  apply Finset.sum_congr rfl
  intro k _
  rw [transpose_apply, Lower.matrix_apply, Lower.matrix_apply, get_rTranspose, get_rTranspose,
    entry_eq hmn hrank, entry_eq hmn hrank]

theorem normalMatrix_permutation
    (hp : Function.Injective fun j : Fin n => f.sweep.permutation[j]) (i j : Fin n) :
    f.normalMatrix.matrix f.sweep.permutation[i] f.sweep.permutation[j] =
      (f.rTranspose.matrix * f.rTranspose.matrixᵀ) i j := by
  rw [normalMatrix, Symmetric.matrix_apply, Symmetric.get_permuted _ hp,
    ← Symmetric.matrix_apply, Lower.timesTranspose_matrix]

section

variable {a : Dense ℝ m n} (hw : f.sweep.Factors a n) (hrank : f.rank = n)
include hw hrank

theorem normalMatrix_of_factors (hmn : n ≤ m) : f.normalMatrix.matrix = a.matrixᵀ * a.matrix := by
  have honto := Finite.surjective_of_injective hw.injective
  ext r s
  obtain ⟨i, rfl⟩ := honto r
  obtain ⟨j, rfl⟩ := honto s
  dsimp only
  rw [normalMatrix_permutation hw.injective, rTranspose_mul hmn hrank, hw.gram,
    Dense.dotProduct_column]

theorem rTranspose_diagonal_ne_zero (i : Fin n) : f.rTranspose.get i i ≠ 0 := by
  rw [get_rTranspose, entry, dif_pos ⟨lt_of_lt_of_eq i.isLt hrank.symm, le_rfl⟩, if_pos rfl]
  exact hw.diagonal i i.isLt

theorem det_normalMatrix_ne_zero : f.normalMatrix.matrix.det ≠ 0 := by
  let e := Equiv.ofBijective _ ⟨hw.injective, Finite.surjective_of_injective hw.injective⟩
  have hpermuted : f.normalMatrix.matrix.submatrix e e =
      f.rTranspose.matrix * f.rTranspose.matrixᵀ := by
    ext i j
    exact normalMatrix_permutation hw.injective i j
  have hdet : f.rTranspose.matrix.det ≠ 0 :=
    Lower.det_ne_zero (rTranspose_diagonal_ne_zero hw hrank)
  rw [← det_submatrix_equiv_self e, hpermuted, det_mul, det_transpose]
  exact mul_ne_zero hdet hdet

end

variable {a : Dense ℝ m n} {fixed : Nat}

theorem Ends.factors (h : Ends a fixed f) (hfull : f.status = .fullRank) :
    f.rank = min m n ∧ f.sweep.Factors a (min m n) := by
  cases h with
  | complete hw => exact ⟨rfl, hw.factors⟩
  | halted _ hstatus => exact absurd hfull (Sweep.obstacle_ne_fullRank hstatus)

theorem factors_of_fullRank (hmn : n ≤ m) (hfull : (a.pivotedQr fixed).status = .fullRank) :
    (a.pivotedQr fixed).rank = n ∧ (a.pivotedQr fixed).sweep.Factors a n := by
  have hends := (ends_pivotedQr a fixed).factors hfull
  rw [Nat.min_eq_right hmn] at hends
  exact hends

theorem normalMatrix_eq (hmn : n ≤ m) (hfull : (a.pivotedQr fixed).status = .fullRank) :
    (a.pivotedQr fixed).normalMatrix.matrix = a.matrixᵀ * a.matrix := by
  obtain ⟨hrank, hw⟩ := factors_of_fullRank hmn hfull
  exact normalMatrix_of_factors hw hrank hmn

theorem posDef_normalMatrix (hmn : n ≤ m) (hfull : (a.pivotedQr fixed).status = .fullRank) :
    (a.pivotedQr fixed).normalMatrix.matrix.PosDef := by
  obtain ⟨hrank, hw⟩ := factors_of_fullRank hmn hfull
  have hdet := det_normalMatrix_ne_zero hw hrank
  rw [Symmetric.posDef_iff]
  intro v hv
  have hnormal := normalMatrix_eq hmn hfull
  have hform : v ⬝ᵥ (a.pivotedQr fixed).normalMatrix.matrix *ᵥ v =
      (a.matrix *ᵥ v) ⬝ᵥ (a.matrix *ᵥ v) := by
    rw [hnormal, ← mulVec_mulVec, dotProduct_mulVec, vecMul_transpose]
  rw [hform]
  apply dotProduct_self_pos
  intro hzero
  apply hv
  apply eq_zero_of_mulVec_eq_zero hdet
  rw [hnormal, ← mulVec_mulVec, hzero, mulVec_zero]

end PivotedQr

end LeastSquares
