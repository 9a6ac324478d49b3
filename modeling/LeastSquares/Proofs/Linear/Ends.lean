import LeastSquares.Proofs.Linear.Reflection

namespace LeastSquares

variable {m n : Nat}

/-- The row and the column of a step. -/
abbrev row (k : Fin (min m n)) : Fin m := k.castLE (Nat.min_le_left m n)

abbrev col (k : Fin (min m n)) : Fin n := k.castLE (Nat.min_le_right m n)

theorem rankTolerance_le : (rankTolerance : ℝ) ≤ 1 / 100 := by
  have hroot : √(999 / 1000 * Scalar.epsilon) ≤ (1 : ℝ) := by
    rw [Real.sqrt_le_one]
    change (999 / 1000 * 2⁻¹ ^ 52 : ℝ) ≤ 1
    norm_num
  change 1 / 100 * √(999 / 1000 * Scalar.epsilon) ≤ (1 / 100 : ℝ)
  linarith

namespace Sweep

variable {w : Sweep ℝ m n}

noncomputable def chosen (fixed : Nat) (w : Sweep ℝ m n) (k : Fin (min m n)) : Sweep ℝ m n :=
  if fixed ≤ k then w.pivot (col k) else w

theorem obstacle_ne_fullRank {longest : ℝ} {j : Fin n} {status : RankStatus}
    (h : w.obstacle longest j = some status) : status ≠ .fullRank := by
  unfold obstacle at h
  dsimp only at h
  split at h
  · obtain rfl := Option.some.inj h
    nofun
  · split at h
    · obtain rfl := Option.some.inj h
      nofun
    · cases h

theorem tailNorm_ne_zero {longest : ℝ} {j : Fin n} (h : w.obstacle longest j = none) :
    w.tailNorm j ≠ 0 := by
  intro hzero
  unfold obstacle at h
  dsimp only at h
  rw [hzero, if_pos (.inl (beq_self_eq_true 0))] at h
  cases h

theorem run_eliminate {longest : ℝ} {k : Fin (min m n)} {ks : List (Fin (min m n))}
    (h : (w.pivot (col k)).obstacle longest (col k) = none) :
    run longest 0 (k :: ks) w =
      run longest 0 ks ((w.pivot (col k)).eliminate (row k) (col k)) := by
  rw [run, if_pos (Nat.zero_le _), h]

end Sweep

noncomputable def Dense.longest (a : Dense ℝ m n) : ℝ :=
  a.columns.foldl (fun l c => max l (Geometry.norm c)) 0

/-- A factorization comes to its step `k` with such a sweep, and has to choose a column for it
if there is one left. -/
inductive Dense.Reaches (a : Dense ℝ m n) (fixed : Nat) : Nat → Sweep ℝ m n → Prop
  | start : Reaches a fixed 0 (Sweep.start a)
  | eliminate {k : Fin (min m n)} {w : Sweep ℝ m n} (hw : Reaches a fixed k w)
      (henough : (w.chosen fixed k).obstacle a.longest (col k) = none) :
      Reaches a fixed (k + 1) ((w.chosen fixed k).eliminate (row k) (col k))

/-- How a factorization ends: all its steps were taken, or the column chosen for one of them has
next to nothing left. -/
inductive PivotedQr.Ends (a : Dense ℝ m n) (fixed : Nat) : PivotedQr ℝ m n → Prop
  | complete {w : Sweep ℝ m n} (hw : a.Reaches fixed (min m n) w) :
      Ends a fixed ⟨w, .fullRank, min m n, Nat.le_refl _⟩
  | halted {k : Fin (min m n)} {w : Sweep ℝ m n} {status : RankStatus} (hw : a.Reaches fixed k w)
      (hstatus : (w.chosen fixed k).obstacle a.longest (col k) = some status) :
      Ends a fixed ⟨w.chosen fixed k, status, k, Nat.le_of_lt k.isLt⟩

theorem drop_finRange_eq_cons {N k : Nat} {i : Fin N} {l : List (Fin N)}
    (h : i :: l = (List.finRange N).drop k) :
    (i : Nat) = k ∧ l = (List.finRange N).drop (k + 1) := by
  have hk : k < N := by
    by_contra hge
    rw [List.drop_eq_nil_of_le (by rw [List.length_finRange]; omega)] at h
    cases h
  rw [List.drop_eq_getElem_cons (by simpa using hk)] at h
  obtain ⟨rfl, hl⟩ := List.cons.inj h
  exact ⟨by simp, hl⟩

namespace PivotedQr

variable {a : Dense ℝ m n} {fixed : Nat}

theorem ends_run {k : Nat} {w : Sweep ℝ m n} {ks : List (Fin (min m n))}
    (hks : ks = (List.finRange (min m n)).drop k) (hk : k ≤ min m n) (hw : a.Reaches fixed k w) :
    Ends a fixed (Sweep.run a.longest fixed ks w) := by
  -- By induction on the columns that are left, each of which may be exchanged before it is
  -- eliminated.
  induction ks generalizing k w with
  | nil =>
    have hlast : min m n ≤ k := by simpa using hks.symm
    obtain rfl : k = min m n := le_antisymm hk hlast
    exact .complete hw
  | cons x ks ih =>
    obtain ⟨rfl, rfl⟩ := drop_finRange_eq_cons hks
    rw [Sweep.run]
    cases hobstacle : (w.chosen fixed x).obstacle a.longest (col x) with
    | some status =>
      unfold Sweep.chosen at hobstacle
      rw [hobstacle]
      exact .halted hw hobstacle
    | none =>
      have hnext := ih rfl x.isLt (.eliminate hw hobstacle)
      unfold Sweep.chosen at hobstacle hnext
      rw [hobstacle]
      exact hnext

theorem ends_pivotedQr (a : Dense ℝ m n) (fixed : Nat) : Ends a fixed (a.pivotedQr fixed) :=
  ends_run rfl (Nat.zero_le _) .start

end PivotedQr

end LeastSquares
