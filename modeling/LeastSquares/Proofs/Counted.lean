import LeastSquares.Length
import LeastSquares.Proofs.Sums

namespace LeastSquares

variable {n : Nat} {cutoff a b : ℝ}

/-- A factor is large, or neither both factors nor their product are small. -/
def Weighs (cutoff a b : ℝ) : Prop :=
  1 < max |a| |b| ∨ cutoff ≤ max |a| |b| ∧ cutoff ^ 2 ≤ |a * b|

noncomputable instance (cutoff a b : ℝ) : Decidable (Weighs cutoff a b) :=
  inferInstanceAs (Decidable (_ ∨ _))

theorem weighs_comm : Weighs cutoff a b ↔ Weighs cutoff b a := by
  unfold Weighs
  rw [max_comm, mul_comm]

theorem counts_iff_weighs (hcutoff : 0 < cutoff) : Counts cutoff a b ↔ Weighs cutoff a b := by
  have hscaled : |a / cutoff * b| < cutoff ↔ |a * b| < cutoff ^ 2 := by
    rw [div_mul_eq_mul_div, abs_div, abs_of_pos hcutoff, div_lt_iff₀ hcutoff, sq]
  unfold Counts Weighs
  simp only [abs_eq, hscaled, not_lt]

theorem abs_mul_lt_of_not_weighs (h : ¬Weighs cutoff a b) : |a * b| < cutoff ^ 2 := by
  obtain ⟨-, hsmall⟩ := not_or.mp h
  by_contra hlarge
  have hmax : max |a| |b| < cutoff := by
    by_contra hfactor
    exact hsmall ⟨not_lt.mp hfactor, not_lt.mp hlarge⟩
  obtain ⟨ha, hb⟩ := max_lt_iff.mp hmax
  apply hlarge
  calc |a * b| = |a| * |b| := abs_mul a b
    _ < cutoff * cutoff := mul_lt_mul'' ha hb (abs_nonneg a) (abs_nonneg b)
    _ = cutoff ^ 2 := (sq cutoff).symm

theorem weighs_self_iff (hcutoff : 0 < cutoff) (hone : cutoff < 1) :
    Weighs cutoff a a ↔ cutoff ≤ |a| := by
  unfold Weighs
  rw [max_self, ← sq, abs_sq, ← sq_abs a]
  constructor
  · rintro (hlarge | ⟨hfactor, -⟩)
    · exact (hone.trans hlarge).le
    · exact hfactor
  · intro hfactor
    exact .inr ⟨hfactor, pow_le_pow_left₀ hcutoff.le hfactor 2⟩

theorem countedDot_eq_sum (hcutoff : 0 < cutoff) (x y : Vector ℝ n) :
    countedDot cutoff x y = ∑ i : Fin n with Weighs cutoff x[i] y[i], x[i] * y[i] := by
  have hterm (s : ℝ) (i : Fin n) :
      (if Counts cutoff x[i] y[i] then s + x[i] * y[i] else s) =
        s + if Weighs cutoff x[i] y[i] then x[i] * y[i] else 0 := by
    by_cases h : Weighs cutoff x[i] y[i]
    · rw [if_pos ((counts_iff_weighs hcutoff).mpr h), if_pos h]
    · rw [if_neg ((counts_iff_weighs hcutoff).not.mpr h), if_neg h, add_zero]
  unfold countedDot
  simp only [hterm]
  rw [fin_foldl_add, zero_add, Finset.sum_filter]

theorem abs_countedDot_sub_le (hcutoff : 0 < cutoff) (x y : Vector ℝ n) :
    |countedDot cutoff x y - ∑ i : Fin n, x[i] * y[i]| ≤ n * cutoff ^ 2 := by
  have hrest : ∑ i : Fin n, x[i] * y[i] - countedDot cutoff x y =
      ∑ i : Fin n with ¬Weighs cutoff x[i] y[i], x[i] * y[i] := by
    rw [countedDot_eq_sum hcutoff, sub_eq_iff_eq_add', Finset.sum_filter_add_sum_filter_not]
  rw [abs_sub_comm, hrest]
  calc |∑ i : Fin n with ¬Weighs cutoff x[i] y[i], x[i] * y[i]|
      ≤ ∑ i : Fin n with ¬Weighs cutoff x[i] y[i], |x[i] * y[i]| :=
        Finset.abs_sum_le_sum_abs _ _
    _ ≤ ∑ _i : Fin n, cutoff ^ 2 := by
        apply (Finset.sum_le_sum _).trans
          (Finset.sum_le_sum_of_subset_of_nonneg (Finset.filter_subset _ _) _)
        · intro i hi
          exact (abs_mul_lt_of_not_weighs (Finset.mem_filter.mp hi).2).le
        · intro i _ _
          exact sq_nonneg cutoff
    _ = n * cutoff ^ 2 := by simp

theorem countedDot_comm (hcutoff : 0 < cutoff) (x y : Vector ℝ n) :
    countedDot cutoff x y = countedDot cutoff y x := by
  rw [countedDot_eq_sum hcutoff, countedDot_eq_sum hcutoff]
  apply Finset.sum_congr
  · ext i
    simpa using weighs_comm
  · intro i _
    exact mul_comm _ _

/-- What the inner product comes to where small terms are left out. -/
structure Condenses (cutoff : ℝ) (x y : Vector ℝ n) : Prop where
  sum : countedDot cutoff x y = ∑ i : Fin n with Weighs cutoff x[i] y[i], x[i] * y[i]
  dropped : ∀ i : Fin n, ¬Weighs cutoff x[i] y[i] → |x[i] * y[i]| < cutoff ^ 2
  near : |countedDot cutoff x y - ∑ i : Fin n, x[i] * y[i]| ≤ n * cutoff ^ 2
  comm : countedDot cutoff x y = countedDot cutoff y x
  self_nonneg : 0 ≤ countedDot cutoff x x
  self_eq_zero : countedDot cutoff x x = 0 ↔ ∀ i : Fin n, |x[i]| < cutoff

/-- In exact arithmetic only terms below the square of the cutoff are lost. -/
theorem countedDot_condenses (hcutoff : 0 < cutoff) (hone : cutoff < 1) (x y : Vector ℝ n) :
    Condenses cutoff x y := by
  have hself : countedDot cutoff x x = ∑ i : Fin n with cutoff ≤ |x[i]|, x[i] * x[i] := by
    rw [countedDot_eq_sum hcutoff]
    simp only [weighs_self_iff hcutoff hone]
  have hnonneg (i : Fin n) : 0 ≤ x[i] * x[i] := mul_self_nonneg _
  constructor
  case sum => exact countedDot_eq_sum hcutoff x y
  case dropped => exact fun i => abs_mul_lt_of_not_weighs
  case near => exact abs_countedDot_sub_le hcutoff x y
  case comm => exact countedDot_comm hcutoff x y
  case self_nonneg =>
    rw [hself]
    exact Finset.sum_nonneg fun i _ => hnonneg i
  case self_eq_zero =>
    rw [hself, Finset.sum_eq_zero_iff_of_nonneg fun i _ => hnonneg i]
    constructor
    · intro hzero i
      by_contra hlarge
      have hi := hzero i (by simpa using hlarge)
      rw [mul_self_eq_zero] at hi
      rw [hi, abs_zero] at hlarge
      exact hlarge hcutoff
    · intro hsmall i hi
      exact absurd (hsmall i) (not_lt.mpr (Finset.mem_filter.mp hi).2)

theorem guardedDot_condenses : (0 : ℝ) < sqrtTiny ∧ (sqrtTiny : ℝ) < 1 ∧
    Condenses sqrtTiny #v[1, 2, 10⁻¹ ^ 200] #v[4, -1, 10⁻¹ ^ 200] :=
  ⟨sqrtTiny_pos, sqrtTiny_lt_one, countedDot_condenses sqrtTiny_pos sqrtTiny_lt_one _ _⟩

end LeastSquares
