import LeastSquares.PivotedQr
import LeastSquares.Proofs.Linear.Substitution

namespace LeastSquares

open Matrix

variable {m n : Nat}

def tail (i : Nat) (v : Fin m → ℝ) : Fin m → ℝ := fun k => if i ≤ k then v k else 0

theorem dotProduct_tail (i : Nat) (u v : Fin m → ℝ) : u ⬝ᵥ tail i v = tail i u ⬝ᵥ tail i v := by
  apply Finset.sum_congr rfl
  intro k _
  unfold tail
  split
  · rfl
  · ring

theorem dot_drop (i : Nat) (v w : Vector ℝ m) :
    dot (v.drop i) (w.drop i) = tail i (coords v) ⬝ᵥ tail i (coords w) := by
  let f (k : Nat) : ℝ := if h : k < m then v[k] * w[k] else 0
  have hdrop : ∑ k : Fin (m - i), (v.drop i)[k] * (w.drop i)[k] =
      ∑ k ∈ Finset.range (m - i), f (i + k) := by
    rw [Finset.sum_range]
    apply Finset.sum_congr rfl
    intro k _
    have hk : i + k < m := by omega
    simp only [f, dif_pos hk, getElem_place, Vector.getElem_drop]
  have hall : tail i (coords v) ⬝ᵥ tail i (coords w) =
      ∑ k ∈ Finset.range m, if i ≤ k then f k else 0 := by
    rw [Finset.sum_range]
    apply Finset.sum_congr rfl
    intro k _
    unfold tail
    split
    · simp only [f, dif_pos k.isLt]
      rfl
    · ring
  rw [dot_eq_sum, hdrop, hall]
  rcases Nat.le_total i m with him | hmi
  · obtain ⟨d, rfl⟩ := Nat.exists_eq_add_of_le him
    have hbefore : ∑ k ∈ Finset.range i, (if i ≤ k then f k else 0) = 0 :=
      Finset.sum_eq_zero fun k hk => if_neg (Nat.not_le.mpr (Finset.mem_range.mp hk))
    rw [Finset.sum_range_add, Nat.add_sub_cancel_left, hbefore, zero_add]
    exact Finset.sum_congr rfl fun k _ => by rw [if_pos (Nat.le_add_right i k)]
  · rw [Nat.sub_eq_zero_of_le hmi, Finset.sum_range_zero, Finset.sum_eq_zero]
    intro k hk
    rw [if_neg (by rw [Finset.mem_range] at hk; omega)]

theorem norm_drop (i : Nat) (v : Vector ℝ m) :
    Geometry.norm (v.drop i) * Geometry.norm (v.drop i) =
      tail i (coords v) ⬝ᵥ tail i (coords v) := by
  rw [norm_mul_self, ← dot_eq, dot_drop]

/-- The reflection along `t`, of which half the squared length is `a`. -/
noncomputable def mirror (t : Fin m → ℝ) (a : ℝ) (v : Fin m → ℝ) : Fin m → ℝ :=
  v - (v ⬝ᵥ t / a) • t

theorem mirror_dotProduct {t : Fin m → ℝ} {a : ℝ} (ha : a ≠ 0) (ht : t ⬝ᵥ t = 2 * a)
    (u v : Fin m → ℝ) : mirror t a u ⬝ᵥ mirror t a v = u ⬝ᵥ v := by
  unfold mirror
  rw [sub_dotProduct, dotProduct_sub, dotProduct_sub, smul_dotProduct, smul_dotProduct,
    dotProduct_smul, dotProduct_smul, ht, dotProduct_comm t v]
  simp only [smul_eq_mul]
  field_simp
  ring

theorem mirror_of_orthogonal {t v : Fin m → ℝ} (a : ℝ) (h : v ⬝ᵥ t = 0) : mirror t a v = v := by
  rw [mirror, h, zero_div, zero_smul, sub_zero]

theorem coords_reflect (i : Fin m) (w v : Vector ℝ m) :
    coords (reflect i w v) = mirror (tail i (coords w)) w[i] (coords v) := by
  funext k
  simp only [mirror, dotProduct_tail i (coords v), Pi.sub_apply, Pi.smul_apply, smul_eq_mul, tail]
  rw [coords_apply, reflect, dot_drop, axpyFrom]
  simp only [getElem_place, Vector.getElem_ofFn]
  split
  · change _ = _ - _ * w[k]
    rw [coords_apply]
    simp only [getElem_place]
    unfold tail
    ring
  · rw [mul_zero, sub_zero]
    rfl

theorem coords_reflector (i : Fin m) (s : ℝ) (v : Vector ℝ m) (k : Fin m) :
    coords (reflector i s v) k =
      if k < i then coords v k else if k = i then coords v k / s + 1 else coords v k / s := by
  rw [coords_apply, reflector, getElem_place, Vector.getElem_ofFn]
  rfl

theorem tail_reflector (i : Fin m) (s : ℝ) (v : Vector ℝ m) :
    tail i (coords (reflector i s v)) = s⁻¹ • tail i (coords v) + Pi.single i 1 := by
  funext k
  simp only [tail, coords_reflector, Pi.add_apply, Pi.smul_apply, smul_eq_mul]
  rcases lt_trichotomy k i with h | rfl | h
  · simp [Fin.not_le.mpr h, h.ne]
  · simp [div_eq_inv_mul]
  · simp [h.le, h.not_gt, h.ne', div_eq_inv_mul]

/-- The reflection that a column gives, of which `s` is the length from place `i` on with the
sign of its entry there. -/
structure Axis (i : Fin m) (s : ℝ) (v : Vector ℝ m) : Prop where
  ne_zero : s ≠ 0
  square : s * s = tail i (coords v) ⬝ᵥ tail i (coords v)
  sign : 0 ≤ v[i] / s

namespace Axis

variable {i : Fin m} {s : ℝ} {v : Vector ℝ m} (h : Axis i s v)
include h

omit h in
theorem pivot_eq : (reflector i s v)[i] = v[i] / s + 1 := by
  rw [← coords_apply, coords_reflector, if_neg (lt_irrefl i), if_pos rfl]
  rfl

theorem pivot_ne_zero : (reflector i s v)[i] ≠ 0 := by
  have hsign := h.sign
  rw [pivot_eq]
  positivity

theorem dotProduct_self : tail i (coords (reflector i s v)) ⬝ᵥ tail i (coords (reflector i s v)) =
    2 * (reflector i s v)[i] := by
  have hs := h.ne_zero
  have hentry : tail i (coords v) i = v[i] := if_pos le_rfl
  rw [pivot_eq, tail_reflector]
  simp only [add_dotProduct, dotProduct_add, smul_dotProduct, dotProduct_smul, smul_eq_mul,
    ← h.square, dotProduct_single, single_dotProduct, hentry, Pi.add_apply, Pi.smul_apply,
    Pi.single_eq_same]
  field_simp
  ring

theorem mirror_self : mirror (tail i (coords (reflector i s v))) (reflector i s v)[i] (coords v) =
    coords v - tail i (coords v) - Pi.single i s := by
  have hs := h.ne_zero
  have hpivot := h.pivot_ne_zero
  have hunit : s • Pi.single i (1 : ℝ) = Pi.single i s := by
    rw [← Pi.single_smul, smul_eq_mul, mul_one]
  have hscale : coords v ⬝ᵥ tail i (coords (reflector i s v)) / (reflector i s v)[i] = s := by
    rw [div_eq_iff hpivot, pivot_eq, tail_reflector]
    simp only [dotProduct_add, dotProduct_smul, smul_eq_mul, dotProduct_tail i (coords v),
      ← h.square, dotProduct_single, coords_apply]
    field_simp
    ring
  rw [mirror, hscale, tail_reflector, smul_add, smul_smul, mul_inv_cancel₀ hs, one_smul, hunit,
    sub_sub]

end Axis

end LeastSquares
