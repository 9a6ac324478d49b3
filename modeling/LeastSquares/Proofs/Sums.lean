import LeastSquares.Dense
import LeastSquares.Proofs.Exact
import Mathlib.Data.Matrix.Mul
import Mathlib.Order.Interval.Finset.Fin

namespace LeastSquares

section Places

variable {n : Nat}

theorem mem_take_finRange {k : Nat} {j : Fin n} : j ∈ (List.finRange n).take k ↔ j < k := by
  rw [List.mem_take_iff_getElem]
  constructor
  · rintro ⟨i, hi, rfl⟩
    simp only [List.length_finRange, lt_min_iff] at hi
    simpa using hi.1
  · intro h
    exact ⟨j, by simp [h], by simp⟩

theorem mem_drop_finRange {k : Nat} {j : Fin n} : j ∈ (List.finRange n).drop k ↔ k ≤ j := by
  rw [List.mem_drop_iff_getElem]
  constructor
  · rintro ⟨i, hi, rfl⟩
    simp
  · intro h
    exact ⟨j - k, by simp; omega, by simp [Fin.ext_iff]; omega⟩

theorem mem_drop_take_finRange {i k : Nat} {j : Fin n} :
    j ∈ ((List.finRange n).take k).drop i ↔ i ≤ j ∧ j < k := by
  rw [List.mem_drop_iff_getElem]
  constructor
  · rintro ⟨m, hm, rfl⟩
    simp only [List.length_take, List.length_finRange, lt_min_iff] at hm
    simp
    omega
  · rintro ⟨hi, hk⟩
    exact ⟨j - i, by simp; omega, by simp [Fin.ext_iff]; omega⟩

theorem mem_below {i j : Fin n} : j ∈ below i ↔ j < i := mem_take_finRange

theorem mem_upTo {i j : Fin n} : j ∈ upTo i ↔ j ≤ i := by
  rw [upTo, mem_take_finRange, Nat.lt_succ_iff, Fin.val_fin_le]

theorem mem_above {i j : Fin n} : j ∈ above i ↔ i < j := by
  rw [above, mem_drop_finRange, Nat.succ_le_iff, Fin.val_fin_lt]

theorem nodup_below (i : Fin n) : (below i).Nodup :=
  (List.nodup_finRange n).sublist (List.take_sublist _ _)

theorem nodup_upTo (i : Fin n) : (upTo i).Nodup :=
  (List.nodup_finRange n).sublist (List.take_sublist _ _)

theorem nodup_onwards (i : Fin n) : (onwards i).Nodup :=
  (List.nodup_finRange n).sublist (List.drop_sublist _ _)

theorem nodup_above (i : Fin n) : (above i).Nodup :=
  (List.nodup_finRange n).sublist (List.drop_sublist _ _)

theorem foldl_take_induction {β : Type} {f : β → Fin n → β} {b : β} (motive : Nat → β → Prop)
    {k : Nat} (hk : k ≤ n) (start : motive 0 b)
    (turn : ∀ (i : Fin n) b, i < k → motive i b → motive (i + 1) (f b i)) :
    motive k (((List.finRange n).take k).foldl f b) := by
  induction k with
  | zero => simpa using start
  | succ k ih =>
    have hl : k < (List.finRange n).length := by simpa using hk
    have h := ih (Nat.le_of_succ_le hk) fun i b hi => turn i b (Nat.lt_succ_of_lt hi)
    rw [List.take_succ_eq_append_getElem hl, List.foldl_append]
    simpa using turn ⟨k, hk⟩ _ (Nat.lt_succ_self k) h

theorem foldl_finRange_induction {β : Type} {f : β → Fin n → β} {b : β}
    (motive : Nat → β → Prop) (start : motive 0 b)
    (turn : ∀ (i : Fin n) b, motive i b → motive (i + 1) (f b i)) :
    motive n ((List.finRange n).foldl f b) := by
  have h := foldl_take_induction motive (le_refl n) start fun i b _ => turn i b
  rwa [List.take_of_length_le (by simp)] at h

theorem getElem_foldl_set {β : Type} (g : Fin n → β → β) (x : Vector β n) {k : Nat} (hk : k ≤ n)
    (r : Fin n) :
    (((List.finRange n).take k).foldl
      (fun (x : Vector β n) (i : Fin n) => x.set i (g i x[i]) i.isLt) x)[r] =
        if (r : Nat) < k then g r x[r] else x[r] := by
  refine foldl_take_induction
    (fun k z => ∀ r : Fin n, z[r] = if (r : Nat) < k then g r x[r] else x[r]) hk
    (fun r => (if_neg (Nat.not_lt_zero _)).symm) ?turn r
  intro i z _ hz r
  by_cases hr : r = i
  · have hzi := hz i
    rw [if_neg (lt_irrefl _)] at hzi
    rw [hr, if_pos (Nat.lt_succ_self _), ← hzi]
    exact Vector.getElem_set_self _
  · have hne : (i : Nat) ≠ r := fun h => hr (Fin.ext h.symm)
    have hlt : (r : Nat) < i + 1 ↔ (r : Nat) < i := by omega
    rw [if_congr hlt rfl rfl, ← hz r]
    exact Vector.getElem_set_ne _ _ hne

theorem foldr_take_induction {β : Type} {f : Fin n → β → β} {b : β} (motive : Nat → β → Prop)
    {k : Nat} (hk : k ≤ n) (start : motive k b)
    (turn : ∀ (i : Fin n) b, i < k → motive (i + 1) b → motive i (f i b)) :
    motive 0 (((List.finRange n).take k).foldr f b) := by
  induction k generalizing b with
  | zero => simpa using start
  | succ k ih =>
    have hl : k < (List.finRange n).length := by simpa using hk
    rw [List.take_succ_eq_append_getElem hl, List.foldr_append]
    apply ih (Nat.le_of_succ_le hk)
    · simpa using turn ⟨k, hk⟩ b (Nat.lt_succ_self k) start
    · intro i b hi
      exact turn i b (Nat.lt_succ_of_lt hi)

theorem foldr_finRange_induction {β : Type} {f : Fin n → β → β} {b : β}
    (motive : Nat → β → Prop) (start : motive n b)
    (turn : ∀ (i : Fin n) b, motive (i + 1) b → motive i (f i b)) :
    motive 0 ((List.finRange n).foldr f b) := by
  have h := foldr_take_induction motive (le_refl n) start fun i b _ => turn i b
  rwa [List.take_of_length_le (by simp)] at h

end Places

section Sums

variable {n : Nat}

theorem sumOver_eq_sum {l : List (Fin n)} (hl : l.Nodup) (f : Fin n → ℝ) :
    sumOver l f = ∑ i ∈ l.toFinset, f i := by
  have h (a : ℝ) : l.foldl (fun s i => s + f i) a = a + (l.map f).sum := by
    induction l generalizing a with
    | nil => simp
    | cons i l ih => simp [ih hl.of_cons, add_assoc]
  rw [List.sum_toFinset f hl]
  exact (h 0).trans (zero_add _)

theorem lessOver_eq_sub {l : List (Fin n)} (hl : l.Nodup) (a : ℝ) (f : Fin n → ℝ) :
    lessOver l a f = a - ∑ i ∈ l.toFinset, f i := by
  rw [List.sum_toFinset f hl]
  unfold lessOver
  induction l generalizing a with
  | nil => simp
  | cons i l ih => simp [ih hl.of_cons, sub_sub]

theorem sumOver_finRange (f : Fin n → ℝ) : sumOver (List.finRange n) f = ∑ i, f i := by
  rw [sumOver_eq_sum (List.nodup_finRange n), List.toFinset_finRange]

theorem sumOver_below (i : Fin n) (f : Fin n → ℝ) :
    sumOver (below i) f = ∑ j ∈ Finset.Iio i, f j := by
  rw [sumOver_eq_sum (nodup_below i)]
  congr 1
  ext j
  simp [mem_below]

theorem lessOver_below (i : Fin n) (a : ℝ) (f : Fin n → ℝ) :
    lessOver (below i) a f = a - ∑ j ∈ Finset.Iio i, f j := by
  rw [lessOver_eq_sub (nodup_below i)]
  congr 2
  ext j
  simp [mem_below]

theorem lessOver_above_reverse (i : Fin n) (a : ℝ) (f : Fin n → ℝ) :
    lessOver (above i).reverse a f = a - ∑ j ∈ Finset.Ioi i, f j := by
  rw [lessOver_eq_sub (List.nodup_reverse.mpr (nodup_above i))]
  congr 2
  ext j
  simp [mem_above]

theorem sum_castLE {m : Nat} (hmn : n ≤ m) {f : Fin m → ℝ} (hf : ∀ i : Fin m, n ≤ i → f i = 0) :
    ∑ i, f i = ∑ i : Fin n, f (i.castLE hmn) := by
  have hmap : ∑ i : Fin n, f (i.castLE hmn) = ∑ i ∈ Finset.univ.map (Fin.castLEEmb hmn), f i := by
    rw [Finset.sum_map]
    rfl
  rw [hmap]
  symm
  apply Finset.sum_subset (Finset.subset_univ _)
  intro i _ hi
  apply hf
  by_contra hlt
  exact hi (Finset.mem_map.mpr ⟨⟨i, Nat.not_le.mp hlt⟩, Finset.mem_univ _, rfl⟩)

theorem fin_foldl_add (f : Fin n → ℝ) (a : ℝ) :
    Fin.foldl n (fun s i => s + f i) a = a + ∑ i, f i := by
  induction n generalizing a with
  | zero => simp
  | succ n ih => rw [Fin.foldl_succ, ih, Fin.sum_univ_succ, add_assoc]

theorem sum_lanes (f : Nat → ℝ) (n : Nat) :
    ∑ i ∈ Finset.range n, f i =
      ∑ b ∈ Finset.range (n / 8), ∑ k ∈ Finset.range 8, f (8 * b + k)
        + ∑ k ∈ Finset.range (n % 8), f (8 * (n / 8) + k) := by
  have h (m : Nat) : ∑ i ∈ Finset.range (8 * m), f i =
      ∑ b ∈ Finset.range m, ∑ k ∈ Finset.range 8, f (8 * b + k) := by
    induction m with
    | zero => simp
    | succ m ih => rw [Nat.mul_succ, Finset.sum_range_add, ih, ← Finset.sum_range_succ]
  rw [← h, ← Finset.sum_range_add, Nat.div_add_mod]

theorem dot_eq_sum (x y : Vector ℝ n) : dot x y = ∑ i : Fin n, x[i] * y[i] := by
  let f (i : Nat) : ℝ := if h : i < n then x[i] * y[i] else 0
  have hf (i : Nat) (h : i < n) : f i = x[i] * y[i] := dif_pos h
  have hall : ∑ i : Fin n, x[i] * y[i] = ∑ i ∈ Finset.range n, f i := by
    rw [Finset.sum_range]
    exact Finset.sum_congr rfl fun i _ => (hf i i.isLt).symm
  have hlane (k : Nat) (hk : k < 8) :
      lane x y k hk = ∑ b ∈ Finset.range (n / 8), f (8 * b + k) := by
    rw [lane, fin_foldl_add, zero_add, Finset.sum_range]
    exact Finset.sum_congr rfl fun b _ => (hf _ _).symm
  have hrest : ∑ k : Fin (n % 8), x[8 * (n / 8) + k] * y[8 * (n / 8) + k] =
      ∑ k ∈ Finset.range (n % 8), f (8 * (n / 8) + k) := by
    rw [Finset.sum_range]
    exact Finset.sum_congr rfl fun k _ => (hf _ _).symm
  rw [hall, sum_lanes, dot, fin_foldl_add, hrest]
  simp only [hlane, Finset.sum_range_succ, Finset.sum_range_zero, zero_add,
    Finset.sum_add_distrib]
  ring

end Sums

theorem foldl_max {β : Type} (f : β → ℝ) (l : List β) (b : ℝ) :
    b ≤ l.foldl (fun m v => max m (f v)) b ∧
      (∀ v ∈ l, f v ≤ l.foldl (fun m v => max m (f v)) b) ∧
      (l.foldl (fun m v => max m (f v)) b = b ∨
        ∃ v ∈ l, f v = l.foldl (fun m v => max m (f v)) b) := by
  induction l generalizing b with
  | nil => simp
  | cons w l ih =>
    obtain ⟨hle, hall, hfound⟩ := ih (max b (f w))
    refine ⟨(le_max_left b _).trans hle, ?_, ?_⟩
    · intro v hv
      rcases List.mem_cons.mp hv with rfl | hv
      · exact (le_max_right b _).trans hle
      · exact hall v hv
    · rcases hfound with hkept | ⟨v, hv, heq⟩
      · rcases max_choice b (f w) with hmax | hmax
        · exact .inl (hkept.trans hmax)
        · exact .inr ⟨w, List.mem_cons_self, (hkept.trans hmax).symm⟩
      · exact .inr ⟨v, List.mem_cons_of_mem w hv, heq⟩

end LeastSquares
