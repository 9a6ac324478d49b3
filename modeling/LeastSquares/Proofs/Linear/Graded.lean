import LeastSquares.Proofs.Linear.Swept

namespace LeastSquares

open Matrix

variable {m n : Nat}

namespace Sweep

variable {a : Dense ℝ m n} {k : Nat} {w : Sweep ℝ m n} {j : Fin n}

theorem remaining_le_foldl (l : List (Fin n)) (k : Fin n) :
    let last := l.foldl (fun k i => if w.remaining[k] < w.remaining[i] then i else k) k
    w.remaining[k] ≤ w.remaining[last] ∧ ∀ i ∈ l, w.remaining[i] ≤ w.remaining[last] := by
  induction l generalizing k with
  | nil => simp
  | cons x l ih =>
    obtain ⟨hfirst, hothers⟩ := ih (if w.remaining[k] < w.remaining[x] then x else k)
    dsimp only
    rw [List.foldl_cons, List.forall_mem_cons]
    refine ⟨le_trans ?_ hfirst, le_trans ?_ hfirst, hothers⟩
    · split
      · next hlt => exact hlt.le
      · exact le_rfl
    · split
      · exact le_rfl
      · next hnot => exact not_lt.mp hnot

theorem remaining_le_longest {i : Fin n} (hi : j ≤ i) :
    w.remaining[i] ≤ w.remaining[w.longest j] := by
  obtain ⟨hself, hothers⟩ := w.remaining_le_foldl (above j) j
  rcases hi.eq_or_lt with rfl | hlt
  · exact hself
  · exact hothers i (mem_above.mpr hlt)

theorem remaining_pivot (i : Fin n) :
    (w.pivot j).remaining[i] = w.remaining[Equiv.swap j (w.longest j) i] :=
  getElem_swap _ _ _ _

theorem remaining_pivot_le {i : Fin n} (hi : j ≤ i) :
    (w.pivot j).remaining[i] ≤ (w.pivot j).remaining[j] := by
  rw [remaining_pivot, remaining_pivot, Equiv.swap_apply_left]
  exact remaining_le_longest (le_swap_apply le_rfl (w.le_longest j) hi)

/-- The diagonal falls, and bounds what is left of the columns that are not treated yet. -/
structure Graded (k : Nat) (w : Sweep ℝ m n) : Prop where
  falls : ∀ i j : Fin n, i ≤ j → (j : Nat) < k → |w.diagonal[j]| ≤ |w.diagonal[i]|
  bounds : ∀ i j : Fin n, (i : Nat) < k → k ≤ j → w.remaining[j] ≤ w.diagonal[i] ^ 2

theorem graded_start (a : Dense ℝ m n) : Graded 0 (start a) where
  falls _ _ _ hj := absurd hj (Nat.not_lt_zero _)
  bounds _ _ hi _ := absurd hi (Nat.not_lt_zero _)

theorem graded_pivot (hw : Graded j w) : Graded j (w.pivot j) where
  falls := hw.falls
  bounds i l hi hl := by
    rw [remaining_pivot]
    exact hw.bounds i _ hi (le_swap_apply le_rfl (w.le_longest j) hl)

theorem remaining_eliminate_le {x : Fin (min m n)} (hw : Swept a 0 x w)
    (hs : w.tailNorm (col x) ≠ 0) {i : Fin n} (hi : col x < i) :
    (w.eliminate (row x) (col x)).remaining[i] ≤ w.remaining[i] := by
  have hplace : (row x : Nat) = col x := rfl
  have hmirrors := (axis_signed hplace hs).mirrors
  have hcolumn := (w.eliminate_spec (row x) (col x)).2.2.1 i hi
  have hsquare := mul_self_nonneg ((reflect (row x)
    (reflector (row x) (w.signed (row x) (col x)) w.columns[col x]) w.columns[i])[row x])
  have hold : w.remaining[i] = rest (row x) w.columns[i] := hw.remaining_eq i (Nat.le_of_lt hi)
  have hnew : (w.eliminate (row x) (col x)).remaining[i] = rest (row x + 1) _ :=
    (swept_eliminate hw hs).remaining_eq i hi
  rw [hnew, hold, hcolumn, ← hmirrors.rest_reflect w.columns[i], rest_succ]
  linarith

theorem signed_sq (w : Sweep ℝ m n) (i : Fin m) (j : Fin n) :
    w.signed i j ^ 2 = rest j w.columns[j] := by
  have hnorm : w.tailNorm j ^ 2 = rest j w.columns[j] := by
    rw [sq]
    exact norm_drop _ _
  unfold signed
  split
  · rw [neg_sq, hnorm]
  · exact hnorm

theorem graded_eliminate {x : Fin (min m n)} (hw : Swept a 0 x w) (hg : Graded x w)
    (hs : w.tailNorm (col x) ≠ 0)
    (hmost : ∀ i, col x ≤ i → w.remaining[i] ≤ w.remaining[col x]) :
    Graded (x + 1) (w.eliminate (row x) (col x)) := by
  obtain ⟨-, -, -, hdiagonal, -⟩ := w.eliminate_spec (row x) (col x)
  have hold {i : Fin n} (hi : (i : Nat) < x) :
      (w.eliminate (row x) (col x)).diagonal[i] = w.diagonal[i] := by
    rw [hdiagonal]
    exact Vector.getElem_set_ne _ _ (Nat.ne_of_gt hi)
  have hnew : (w.eliminate (row x) (col x)).diagonal[col x] ^ 2 = w.remaining[col x] := by
    have hset : (w.eliminate (row x) (col x)).diagonal[col x] = -w.signed (row x) (col x) := by
      rw [hdiagonal]
      exact Vector.getElem_set_self _
    rw [hset, neg_sq, signed_sq]
    exact (hw.remaining_eq _ le_rfl).symm
  have hbounds (i j : Fin n) (hi : (i : Nat) < x + 1) (hj : (x : Nat) ≤ j) :
      w.remaining[j] ≤ (w.eliminate (row x) (col x)).diagonal[i] ^ 2 := by
    rcases Nat.lt_succ_iff_lt_or_eq.mp hi with hi | hi
    · rw [hold hi]
      exact hg.bounds i j hi hj
    · obtain rfl : i = col x := Fin.ext hi
      rw [hnew]
      exact hmost j hj
  refine ⟨fun i j hij hj => ?_, fun i j hi hj => ?_⟩
  · rcases Nat.lt_succ_iff_lt_or_eq.mp hj with hlt | heq
    · rw [hold hlt, hold (lt_of_le_of_lt hij hlt)]
      exact hg.falls i j hij hlt
    · obtain rfl : j = col x := Fin.ext heq
      apply sq_le_sq.mp
      rw [hnew]
      exact hbounds i _ (Nat.lt_succ_of_le hij) le_rfl
  · exact (remaining_eliminate_le hw hs hj).trans (hbounds i j hi (Nat.le_of_succ_le hj))

end Sweep

theorem Dense.Reaches.graded {a : Dense ℝ m n} {k : Nat} {w : Sweep ℝ m n}
    (h : a.Reaches 0 k w) : w.Graded k := by
  induction h with
  | start => exact Sweep.graded_start a
  | @eliminate k w hw henough ih =>
    have hchosen : w.chosen 0 k = w.pivot (col k) := if_pos (Nat.zero_le _)
    have hswept := Sweep.swept_chosen (x := k) hw.swept
    rw [hchosen] at henough hswept ⊢
    exact Sweep.graded_eliminate hswept (Sweep.graded_pivot (j := col k) ih)
      (Sweep.tailNorm_ne_zero henough) fun i hi => Sweep.remaining_pivot_le hi

end LeastSquares
