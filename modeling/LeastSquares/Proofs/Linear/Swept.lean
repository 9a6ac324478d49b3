import LeastSquares.Proofs.Linear.Normal

namespace LeastSquares

open Matrix

variable {m n : Nat}

noncomputable def rest (k : Nat) (v : Vector ℝ m) : ℝ := tail k (coords v) ⬝ᵥ tail k (coords v)

theorem square_norm_drop (k : Nat) (v : Vector ℝ m) :
    square (Geometry.norm (v.drop k)) = rest k v := norm_drop k v

theorem rest_zero (v : Vector ℝ m) : rest 0 v = square (Geometry.norm v) := by
  have htail : tail 0 (coords v) = coords v := funext fun _ => if_pos (Nat.zero_le _)
  rw [rest, htail, ← norm_mul_self]
  rfl

theorem rest_succ (i : Fin m) (v : Vector ℝ m) :
    rest i v = v[i] * v[i] + rest (i + 1) v := by
  have hsplit : tail i (coords v) = Pi.single i v[i] + tail (i + 1) (coords v) := by
    funext k
    rcases lt_trichotomy k i with h | rfl | h
    · simp [tail, h.ne, Fin.not_le.mpr h, h.not_gt]
    · simp [tail, coords]
    · simp [tail, h.ne', h.le, h]
  have hentry : tail (i + 1) (coords v) i = 0 := if_neg (Nat.not_succ_le_self _)
  rw [rest, hsplit]
  simp [rest, hentry]

/-- A vector to reflect along: its entry at place `i` is half its squared length from there on. -/
structure Mirrors (i : Fin m) (t : Vector ℝ m) : Prop where
  ne_zero : t[i] ≠ 0
  square : rest i t = 2 * t[i]

theorem Axis.mirrors {i : Fin m} {s : ℝ} {v : Vector ℝ m} (h : Axis i s v) :
    Mirrors i (reflector i s v) := ⟨h.pivot_ne_zero, h.dotProduct_self⟩

namespace Mirrors

variable {i : Fin m} {t : Vector ℝ m} (h : Mirrors i t)
include h

theorem dotProduct_reflect (u v : Vector ℝ m) :
    coords (reflect i t u) ⬝ᵥ coords (reflect i t v) = coords u ⬝ᵥ coords v := by
  rw [coords_reflect, coords_reflect, mirror_dotProduct h.ne_zero h.square]

theorem rest_reflect (v : Vector ℝ m) : rest i (reflect i t v) = rest i v := by
  have hsmul (c : ℝ) : tail i (coords v - c • tail i (coords t)) =
      tail i (coords v) - c • tail i (coords t) := by
    funext k
    by_cases hk : i ≤ k <;> simp [tail, hk]
  have htail : tail i (coords (reflect i t v)) =
      mirror (tail i (coords t)) t[i] (tail i (coords v)) := by
    rw [coords_reflect, mirror, hsmul, dotProduct_tail, mirror]
  rw [rest, htail, mirror_dotProduct h.ne_zero h.square, rest]

end Mirrors

theorem dotProduct_reflect_comm (i : Fin m) (t u v : Vector ℝ m) :
    coords (reflect i t u) ⬝ᵥ coords v = coords u ⬝ᵥ coords (reflect i t v) := by
  rw [coords_reflect, coords_reflect, mirror, mirror, sub_dotProduct, dotProduct_sub,
    smul_dotProduct, dotProduct_smul, dotProduct_comm (tail i (coords t)) (coords v)]
  simp only [smul_eq_mul]
  ring

namespace Sweep

noncomputable def turnAt (w : Sweep ℝ m n) (k : Fin (min m n)) (v : Vector ℝ m) : Vector ℝ m :=
  reflect (row k) w.columns[col k] v

noncomputable def turn (w : Sweep ℝ m n) (k : Nat) (v : Vector ℝ m) : Vector ℝ m :=
  ((List.finRange (min m n)).take k).foldl (fun v x => w.turnAt x v) v

variable {a : Dense ℝ m n} {fixed k : Nat} {w w' : Sweep ℝ m n}

theorem turn_zero (v : Vector ℝ m) : w.turn 0 v = v := rfl

theorem turn_succ (x : Fin (min m n)) (v : Vector ℝ m) :
    w.turn (x + 1) v = w.turnAt x (w.turn x v) := by
  have hx : (x : Nat) < (List.finRange (min m n)).length := by
    rw [List.length_finRange]
    exact x.isLt
  rw [turn, List.take_succ_eq_append_getElem hx, List.foldl_append]
  simp [turn]

theorem turn_congr (h : ∀ j : Fin n, (j : Nat) < k → w'.columns[j] = w.columns[j])
    (v : Vector ℝ m) : w'.turn k v = w.turn k v := by
  apply List.foldl_ext
  intro v x hx
  have hlt : (x : Nat) < k := mem_take_finRange.mp hx
  rw [turnAt, turnAt, h (col x) hlt]

/-- What is known of a factorization under way before its step `k`. -/
structure Swept (a : Dense ℝ m n) (fixed k : Nat) (w : Sweep ℝ m n) : Prop
    extends Factors a k w where
  kept : ∀ j : Fin n, (j : Nat) < fixed → w.permutation[j] = j
  mirrors : ∀ x : Fin (min m n), (x : Nat) < k → Mirrors (row x) w.columns[col x]
  /-- The columns are those of the matrix, in their new places and reflected. -/
  view_eq : ∀ j, w.view k j = coords (w.turn k (a.column w.permutation[j]))
  /-- Nothing is lost by bringing the squared lengths up to date. -/
  remaining_eq : ∀ j : Fin n, k ≤ j → w.remaining[j] = rest k w.columns[j]

theorem swept_start (a : Dense ℝ m n) (fixed : Nat) : Swept a fixed 0 (start a) where
  toFactors := factors_start a
  kept j _ := by simp [start]
  mirrors x hx := absurd hx (Nat.not_lt_zero _)
  view_eq j := by
    have hplace : (start a).permutation[j] = j := by simp [start]
    rw [view_of_le (Nat.zero_le _), turn_zero, hplace]
    rfl
  remaining_eq j _ := by
    rw [rest_zero]
    simp [start]

theorem swept_swap {i j : Fin n} (hi : k ≤ i) (hj : k ≤ j) (hfixed : fixed ≤ k)
    (hw : Swept a fixed k w) : Swept a fixed k (w.swap i j) where
  toFactors := factors_swap hi hj hw.toFactors
  kept l hl := by
    have hlt : (l : Nat) < k := hl.trans_le hfixed
    have hplace : (w.swap i j).permutation[l] = _ := getElem_swap _ _ _ _
    rw [hplace, swap_apply_of_lt hi hj hlt, hw.kept l hl]
  mirrors x hx := by
    rw [columns_swap_of_lt hi hj hx]
    exact hw.mirrors x hx
  view_eq l := by
    have hplace : (w.swap i j).permutation[l] = _ := getElem_swap _ _ _ _
    rw [view_swap hi hj, hw.view_eq, hplace, turn_congr fun l hl => columns_swap_of_lt hi hj hl]
  remaining_eq l hl := by
    have hremaining : (w.swap i j).remaining[l] = _ := getElem_swap _ _ _ _
    have hcolumn : (w.swap i j).columns[l] = _ := getElem_swap _ _ _ _
    rw [hremaining, hcolumn]
    exact hw.remaining_eq _ (le_swap_apply hi hj hl)

theorem swept_pivot {j : Fin n} (hfixed : fixed ≤ j) (hw : Swept a fixed j w) :
    Swept a fixed j (w.pivot j) := swept_swap le_rfl (w.le_longest j) hfixed hw

/-! Each column that is reflected brings its own squared length up to date. -/

theorem remaining_reflectColumn {i : Fin m} {t : Vector ℝ m} (ht : Mirrors i t) {k : Fin n}
    (hk : w.remaining[k] = rest i w.columns[k]) :
    (w.reflectColumn i t k).remaining[k] = rest (i + 1) (w.reflectColumn i t k).columns[k] := by
  have hself {β : Type} (v : Vector β n) (b : β) : (v.set k b k.isLt)[k] = b :=
    Vector.getElem_set_self _
  have hleft : w.remaining[k] - (reflect i t w.columns[k])[i] * (reflect i t w.columns[k])[i] =
      rest (i + 1) (reflect i t w.columns[k]) := by
    rw [hk, ← ht.rest_reflect, rest_succ]
    ring
  unfold reflectColumn
  dsimp only
  split
  · rw [hself, hself, square_norm_drop]
  · rw [hself, hself, hleft]

theorem reflectColumn_of_ne (w : Sweep ℝ m n) (i : Fin m) (t : Vector ℝ m) {k r : Fin n}
    (hr : r ≠ k) : (w.reflectColumn i t k).remaining[r] = w.remaining[r] ∧
      (w.reflectColumn i t k).columns[r] = w.columns[r] := by
  have hother {β : Type} (v : Vector β n) (b : β) : (v.set k b k.isLt)[r] = v[r] :=
    Vector.getElem_set_ne _ _ fun h => hr (Fin.ext h.symm)
  unfold reflectColumn
  dsimp only
  split
  · exact ⟨hother _ _, hother _ _⟩
  · exact ⟨hother _ _, hother _ _⟩

theorem remaining_foldl {i : Fin m} {t : Vector ℝ m} (ht : Mirrors i t) {l : List (Fin n)}
    (hl : l.Nodup) (w : Sweep ℝ m n) (hw : ∀ k ∈ l, w.remaining[k] = rest i w.columns[k]) :
    let w' := l.foldl (fun w k => w.reflectColumn i t k) w
    (∀ k ∈ l, w'.remaining[k] = rest (i + 1) w'.columns[k]) ∧
      ∀ k ∉ l, w'.remaining[k] = w.remaining[k] := by
  induction l generalizing w with
  | nil => simp
  | cons r l ih =>
    obtain ⟨hr, hl⟩ := List.nodup_cons.mp hl
    obtain ⟨hfirst, hothers⟩ := List.forall_mem_cons.mp hw
    have hne {k : Fin n} (hk : k ∈ l) : k ≠ r := fun h => hr (h ▸ hk)
    have hnext : ∀ k ∈ l, (w.reflectColumn i t r).remaining[k] =
        rest i (w.reflectColumn i t r).columns[k] := by
      intro k hk
      obtain ⟨hremaining, hcolumn⟩ := w.reflectColumn_of_ne i t (hne hk)
      rw [hremaining, hcolumn, hothers k hk]
    obtain ⟨hin, hout⟩ := ih hl _ hnext
    have hcolumns := (foldl_reflectColumn i t hl (w.reflectColumn i t r)).1
    refine ⟨List.forall_mem_cons.mpr ⟨?_, hin⟩, fun k hk => ?_⟩
    · have hcolumn := hcolumns r
      rw [if_neg hr] at hcolumn
      rw [List.foldl_cons, hout r hr, hcolumn]
      exact remaining_reflectColumn ht hfirst
    · rw [List.mem_cons, not_or] at hk
      obtain ⟨hkr, hkl⟩ := hk
      rw [List.foldl_cons, hout k hkl]
      exact (w.reflectColumn_of_ne i t hkr).1

theorem remaining_eliminate {i : Fin m} {j : Fin n} (hij : (i : Nat) = j)
    (hs : w.tailNorm j ≠ 0) (hw : ∀ k, j < k → w.remaining[k] = rest i w.columns[k])
    (k : Fin n) (hk : j < k) :
    (w.eliminate i j).remaining[k] = rest (i + 1) (w.eliminate i j).columns[k] := by
  have hmirrors := (axis_signed hij hs).mirrors
  have hstart : ∀ k ∈ above j, w.remaining[k] =
      rest i (w.columns.set j (reflector i (w.signed i j) w.columns[j]))[k] := by
    intro k hk
    have hjk := mem_above.mp hk
    have hset : (w.columns.set j (reflector i (w.signed i j) w.columns[j]))[k] = w.columns[k] :=
      Vector.getElem_set_ne _ _ fun h => hjk.ne (Fin.ext h)
    rw [hset, hw k hjk]
  exact (remaining_foldl hmirrors (nodup_above j)
    { w with
      columns := w.columns.set j (reflector i (w.signed i j) w.columns[j])
      diagonal := w.diagonal.set j (-w.signed i j) } hstart).1 k (mem_above.mpr hk)

theorem swept_eliminate {x : Fin (min m n)} (hw : Swept a fixed x w)
    (hs : w.tailNorm (col x) ≠ 0) : Swept a fixed (x + 1) (w.eliminate (row x) (col x)) := by
  have hplace : (row x : Nat) = col x := rfl
  have hmirrors := (axis_signed hplace hs).mirrors
  obtain ⟨hbefore, hself, -, -, hpermutation⟩ := w.eliminate_spec (row x) (col x)
  have hturn (v : Vector ℝ m) : coords ((w.eliminate (row x) (col x)).turn (x + 1) v) =
      mirror (tail (row x) (coords (reflector (row x) (w.signed (row x) (col x)) w.columns[col x])))
        (reflector (row x) (w.signed (row x) (col x)) w.columns[col x])[row x]
        (coords (w.turn x v)) := by
    have hsame : (w.eliminate (row x) (col x)).turn x v = w.turn x v :=
      turn_congr (fun j hj => hbefore j hj) v
    rw [turn_succ, turnAt, hself, coords_reflect, hsame]
  refine ⟨factors_eliminate hplace hw.toFactors hs, fun j hj => ?_, fun y hy => ?_, fun j => ?_,
    fun j hj => ?_⟩
  · rw [hpermutation]
    exact hw.kept j hj
  · rcases Nat.lt_succ_iff_lt_or_eq.mp hy with hy | hy
    · rw [hbefore (col y) hy]
      exact hw.mirrors y hy
    · obtain rfl : y = x := Fin.ext hy
      rw [hself]
      exact hmirrors
  · rw [hpermutation, hturn, ← hw.view_eq]
    exact view_eliminate hplace hs j
  · exact remaining_eliminate hplace hs (fun k hk => hw.remaining_eq k (Nat.le_of_lt hk)) j hj

theorem swept_chosen {x : Fin (min m n)} (hw : Swept a fixed x w) :
    Swept a fixed x (w.chosen fixed x) := by
  unfold chosen
  split
  · next hfixed => exact swept_pivot (j := col x) hfixed hw
  · exact hw

end Sweep

theorem Dense.Reaches.swept {a : Dense ℝ m n} {fixed k : Nat} {w : Sweep ℝ m n}
    (h : a.Reaches fixed k w) : w.Swept a fixed k := by
  induction h with
  | start => exact Sweep.swept_start a fixed
  | eliminate _ henough ih =>
    exact Sweep.swept_eliminate (Sweep.swept_chosen ih) (Sweep.tailNorm_ne_zero henough)

namespace PivotedQr

variable {a : Dense ℝ m n} {fixed : Nat}

theorem Ends.swept {f : PivotedQr ℝ m n} (h : Ends a fixed f) : f.sweep.Swept a fixed f.rank := by
  cases h with
  | complete hw => exact hw.swept
  | halted hw _ => exact Sweep.swept_chosen hw.swept

end PivotedQr

end LeastSquares
