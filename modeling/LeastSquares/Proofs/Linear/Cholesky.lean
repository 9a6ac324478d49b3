import LeastSquares.Packed.Cholesky
import LeastSquares.Proofs.Linear.Substitution
import Mathlib.LinearAlgebra.Matrix.Block
import Mathlib.LinearAlgebra.Matrix.ToLinearEquiv

namespace LeastSquares

open Matrix

variable {n : Nat}

theorem foldlM_take_induction {β ε : Type} {f : β → Fin n → Except ε β} {b : β}
    (motive : Nat → β → Prop) (failure : ε → Prop) (start : motive 0 b)
    (turn : ∀ (i : Fin n) b, motive i b →
      (∀ b', f b i = .ok b' → motive (i + 1) b') ∧ ∀ e, f b i = .error e → failure e)
    {k : Nat} (hk : k ≤ n) :
    (∀ b', ((List.finRange n).take k).foldlM f b = .ok b' → motive k b') ∧
      ∀ e, ((List.finRange n).take k).foldlM f b = .error e → failure e := by
  induction k with
  | zero =>
    refine ⟨?_, by simp [pure, Except.pure]⟩
    intro b' h
    simp only [List.take_zero, List.foldlM_nil, pure, Except.pure, Except.ok.injEq] at h
    exact h ▸ start
  | succ k ih =>
    have hl : k < (List.finRange n).length := by simpa using hk
    obtain ⟨hok, herror⟩ := ih (Nat.le_of_succ_le hk)
    rw [List.take_succ_eq_append_getElem hl, List.foldlM_append]
    cases h : ((List.finRange n).take k).foldlM f b with
    | error e =>
      refine ⟨by simp [bind, Except.bind], ?_⟩
      intro e' he
      simp only [bind, Except.bind, Except.error.injEq] at he
      exact he ▸ herror e h
    | ok b =>
      have ht := turn ⟨k, hk⟩ b (hok b h)
      cases ht' : f b ⟨k, hk⟩ with
      | error e => simpa [bind, Except.bind, ht'] using ht
      | ok b' => simpa [bind, Except.bind, pure, Except.pure, ht'] using ht

namespace Cholesky

variable {a : Symmetric ℝ n}

/-- The entry `(i, j)` of `L Lᵀ`, of which only the terms up to `j` count. -/
noncomputable def product (l : Lower ℝ n) (i j : Fin n) : ℝ :=
  ∑ k ∈ Finset.Iic j, l.get i k * l.get j k

/-- The rows before `k` are those of the factor, and the others are still zero. -/
structure Rows (a : Symmetric ℝ n) (k : Nat) (l : Lower ℝ n) : Prop where
  product_eq : ∀ i j : Fin n, i < k → j ≤ i → product l i j = a.get i j
  diagonal_pos : ∀ i : Fin n, i < k → 0 < l.get i i
  rest : ∀ i j : Fin n, k ≤ i → l.get i j = 0

theorem reduced_eq (a : Symmetric ℝ n) (l : Lower ℝ n) (i j : Fin n) :
    reduced a l i j = a.get i j - ∑ k ∈ Finset.Iio j, l.get i k * l.get j k :=
  lessOver_below j _ _

theorem rows_zeros (a : Symmetric ℝ n) : Rows a 0 (Lower.zeros n) where
  product_eq i _ hi _ := absurd hi (Nat.not_lt_zero _)
  diagonal_pos i hi := absurd hi (Nat.not_lt_zero _)
  rest i j _ := by
    unfold Lower.get Lower.zeros
    split
    · exact Triangle.get_replicate 0 _
    · rfl

/-- Row `i` holds the quotients of the places before `k`. -/
structure Quotients (a : Symmetric ℝ n) (l : Lower ℝ n) (i : Fin n) (k : Nat) (m : Lower ℝ n) :
    Prop where
  others : ∀ i' j : Fin n, i' ≠ i → m.get i' j = l.get i' j
  product_eq : ∀ j : Fin n, j < k → j < i → product m i j = a.get i j
  rest : ∀ j : Fin n, k ≤ j → m.get i j = 0

theorem sum_Iio_set (m : Lower ℝ n) {i j : Fin n} (h : j ≤ i) (v : ℝ) (i' j' : Fin n) :
    ∑ k ∈ Finset.Iio j, (m.set i j v).get i' k * (m.set i j v).get j' k =
      ∑ k ∈ Finset.Iio j, m.get i' k * m.get j' k := by
  apply Finset.sum_congr rfl
  intro k hk
  have hkj := Fin.ne_of_lt (Finset.mem_Iio.mp hk)
  rw [m.get_set_of_column_ne h v hkj, m.get_set_of_column_ne h v hkj]

theorem product_set_of_lt (m : Lower ℝ n) {i j : Fin n} (h : j ≤ i) (v : ℝ) (i' : Fin n)
    {j' : Fin n} (hj : j' < j) : product (m.set i j v) i' j' = product m i' j' := by
  apply Finset.sum_congr rfl
  intro k hk
  have hkj := Fin.ne_of_lt (Fin.lt_of_le_of_lt (Finset.mem_Iic.mp hk) hj)
  rw [m.get_set_of_column_ne h v hkj, m.get_set_of_column_ne h v hkj]

theorem quotients_offDiagonal {l : Lower ℝ n} {i : Fin n} (h : Rows a i l) :
    Quotients a l i i (offDiagonal a l i) := by
  -- By induction on the places of the row: the one that is set does not reach those before it.
  apply foldl_take_induction (Quotients a l i) (Nat.le_of_lt i.isLt)
  · exact ⟨fun _ _ _ => rfl, fun j hj => absurd hj (Nat.not_lt_zero _),
      fun j _ => h.rest i j (le_refl _)⟩
  · intro j m hji hm
    have hle : j ≤ i := Fin.le_of_lt hji
    have hne : j ≠ i := Fin.ne_of_lt hji
    refine ⟨?others, ?product, ?rest⟩
    case others =>
      intro i' j' hi'
      rw [m.get_set_of_row_ne hle _ hi']
      exact hm.others i' j' hi'
    case product =>
      intro j' hj' hji'
      rcases Nat.lt_succ_iff_lt_or_eq.mp hj' with hlt | heq
      · rw [product_set_of_lt m hle _ i hlt]
        exact hm.product_eq j' hlt hji'
      · obtain rfl : j' = j := Fin.ext heq
        rw [product, sum_Iic, sum_Iio_set m hle, m.get_set_self hle, m.get_set_of_row_ne hle _ hne,
          reduced_eq, hm.others j' j' hne, div_mul_cancel₀ _ (h.diagonal_pos j' hji').ne']
        ring
    case rest =>
      intro j' hj'
      have hjj : j' ≠ j := fun e => by subst e; omega
      rw [m.get_set_of_column_ne hle _ hjj]
      exact hm.rest j' (by omega)

theorem product_congr {l m : Lower ℝ n} {i j : Fin n} (hi : ∀ k, m.get i k = l.get i k)
    (hj : ∀ k, m.get j k = l.get j k) : product m i j = product l i j := by
  simp only [product, hi, hj]

/-- The rows before the failing one are those of the factor, and that row too except for its
diagonal, where the pivot stands. -/
structure Failed (a : Symmetric ℝ n) (e : NotPositiveDefinite ℝ n) : Prop where
  product_eq : ∀ i j : Fin n, i ≤ e.index → j ≤ i → j < e.index →
    product e.factor i j = a.get i j
  pivot_eq : e.pivot = a.get e.index e.index -
    ∑ k ∈ Finset.Iio e.index, e.factor.get e.index k * e.factor.get e.index k
  pivot_nonpos : e.pivot ≤ 0
  diagonal_pos : ∀ i, i < e.index → 0 < e.factor.get i i
  rest : ∀ i j, e.index < i → e.factor.get i j = 0

theorem Failed.diagonal_ne_zero {e : NotPositiveDefinite ℝ n} (h : Failed a e) (i : Fin n)
    (hi : i < e.index) : e.factor.get i i ≠ 0 :=
  (h.diagonal_pos i hi).ne'

theorem Failed.pivot_eq_sq {e : NotPositiveDefinite ℝ n} (h : Failed a e) :
    e.factor.get e.index e.index =
      a.get e.index e.index - ∑ j ∈ Finset.Iio e.index, e.factor.get e.index j ^ 2 := by
  simp only [sq]
  exact h.pivot_eq

/-- The rows up to `i` are those of the factor, whatever stands on the diagonal of row `i`. -/
structure Reaches (a : Symmetric ℝ n) (i : Fin n) (l : Lower ℝ n) : Prop where
  product_eq : ∀ i' j : Fin n, i' ≤ i → j ≤ i' → j < i → product l i' j = a.get i' j
  diagonal_pos : ∀ i' : Fin n, i' < i → 0 < l.get i' i'
  rest : ∀ i' j : Fin n, i < i' → l.get i' j = 0

theorem reaches_set {l m : Lower ℝ n} {i : Fin n} (h : Rows a i l) (hq : Quotients a l i i m)
    (v : ℝ) : Reaches a i (m.set i i v) := by
  have hle := Fin.le_refl i
  have hrow (r k : Fin n) (hr : r ≠ i) : (m.set i i v).get r k = l.get r k := by
    rw [m.get_set_of_row_ne hle v hr]
    exact hq.others r k hr
  refine ⟨fun i' j hi hj hji => ?_, fun i' hi => ?_, fun i' j hi => ?_⟩
  · rcases Fin.lt_or_eq_of_le hi with hlt | rfl
    · rw [product_congr (fun k => hrow i' k (Fin.ne_of_lt hlt))
        fun k => hrow j k (Fin.ne_of_lt hji)]
      exact h.product_eq i' j hlt hj
    · rw [product_set_of_lt m hle v i' hji]
      exact hq.product_eq j hji hji
  · rw [hrow i' i' (Fin.ne_of_lt hi)]
    exact h.diagonal_pos i' hi
  · rw [hrow i' j (Fin.ne_of_gt hi)]
    exact h.rest i' j (Nat.le_of_lt hi)

theorem Reaches.rows {l : Lower ℝ n} {i : Fin n} (h : Reaches a i l)
    (hproduct : product l i i = a.get i i) (hpos : 0 < l.get i i) : Rows a (i + 1) l where
  product_eq i' j hi hj := by
    have hle : i' ≤ i := Nat.lt_succ_iff.mp hi
    rcases Fin.lt_or_eq_of_le (Fin.le_trans hj hle) with hlt | rfl
    · exact h.product_eq i' j hle hj hlt
    · obtain rfl := Fin.le_antisymm hle hj
      exact hproduct
  diagonal_pos i' hi := by
    rcases Nat.lt_succ_iff_lt_or_eq.mp hi with hlt | heq
    · exact h.diagonal_pos i' hlt
    · obtain rfl : i' = i := Fin.ext heq
      exact hpos
  rest i' j hi := h.rest i' j hi

theorem row_spec {l : Lower ℝ n} {i : Fin n} (h : Rows a i l) :
    (∀ l', row a l i = .ok l' → Rows a (i + 1) l') ∧ ∀ e, row a l i = .error e → Failed a e := by
  have hq := quotients_offDiagonal h
  have hle := Fin.le_refl i
  unfold row
  generalize offDiagonal a l i = m at hq
  have hreaches := reaches_set h hq
  dsimp only
  split
  · next hnonpos =>
    refine ⟨by simp, fun e he => ?_⟩
    obtain rfl := Except.error.inj he
    have hpivot : (m.set i i (reduced a m i i)).get i i = reduced a m i i := m.get_set_self hle _
    refine ⟨(hreaches _).product_eq, ?_, ?_, (hreaches _).diagonal_pos, (hreaches _).rest⟩
    · rw [NotPositiveDefinite.pivot, hpivot, sum_Iio_set m hle, reduced_eq]
    · rw [NotPositiveDefinite.pivot, hpivot]
      exact hnonpos
  · next hpos =>
    rw [not_le] at hpos
    refine ⟨fun l' hl' => ?_, by simp⟩
    obtain rfl := Except.ok.inj hl'
    refine (hreaches _).rows ?_ ?_
    · rw [product, sum_Iic, sum_Iio_set m hle, m.get_set_self hle, sqrt_eq,
        Real.mul_self_sqrt hpos.le, reduced_eq]
      ring
    · rw [m.get_set_self hle, sqrt_eq]
      exact Real.sqrt_pos.mpr hpos

end Cholesky

end LeastSquares
