import LeastSquares.Packed.SmallestSingular
import LeastSquares.Proofs.Linear.Definite

namespace LeastSquares

open Matrix

variable {n : Nat}

namespace Lower

variable {l : Lower ℝ n}

theorem coords_followStep (x y : Vector ℝ n) (i : Fin n) :
    coords (l.followStep x y i) = Function.update (coords y) i
      ((coords x i - ∑ j ∈ Finset.Iio i, l.get i j * coords y j) / l.get i i) := by
  rw [followStep, coords_set, sumOver_below]
  rfl

theorem matrix_mulVec_follow (hl : ∀ i, l.get i i ≠ 0) (x : Vector ℝ n) :
    l.matrix *ᵥ coords (l.follow x) = coords x := by
  have h := foldl_finRange_induction (f := l.followStep x) (b := Vector.replicate n 0)
    (fun k y => ∀ i : Fin n, i < k → (l.matrix *ᵥ coords y) i = coords x i)
    (fun _ hi => absurd hi (Nat.not_lt_zero _)) ?turn
  · funext i
    exact h i i.isLt
  · intro i y hsolved k hk
    have hbelow {j : Fin n} (hj : j < i) (v : ℝ) : Function.update (coords y) i v j = coords y j :=
      Function.update_of_ne hj.ne _ _
    rw [coords_followStep, mulVec_apply, sum_Iic]
    rcases Nat.lt_succ_iff_lt_or_eq.mp hk with hki | hki
    · rw [← hsolved k hki, mulVec_apply, sum_Iic, hbelow hki]
      congr 1
      exact Finset.sum_congr rfl fun j hj => by rw [hbelow ((Finset.mem_Iio.mp hj).trans hki)]
    · obtain rfl : k = i := Fin.ext hki
      have hsum (v : ℝ) : ∑ j ∈ Finset.Iio k, l.get k j * Function.update (coords y) k v j =
          ∑ j ∈ Finset.Iio k, l.get k j * coords y j :=
        Finset.sum_congr rfl fun j hj => by rw [hbelow (Finset.mem_Iio.mp hj)]
      rw [hsum, Function.update_self, mul_div_cancel₀ _ (hl k)]
      ring

theorem weight_pos (k : Nat) : (0 : ℝ) < weight k := by
  have hdraw : (0 : ℝ) ≤ (draw (k + 1) : ℝ) / ((9973 : Nat) : ℝ) :=
    div_nonneg (Nat.cast_nonneg _) (Nat.cast_nonneg _)
  change (0 : ℝ) < 1 / 2 * (1 + (draw (k + 1) : ℝ) / ((9973 : Nat) : ℝ))
  linarith

/-- Component `j` is solved for with one of the two signs, and what it adds to the sums of the
components before it is added to them. -/
theorem coords_growStep (l : Lower ℝ n) (j : Fin n) (x : Vector ℝ n) :
    ∃ b v, |b| = weight (n - 1 - j) ∧ v = (b - coords x j) / l.get j j ∧
      ∀ i, coords (l.growStep j x) i =
        if i = j then v else if i < j then coords x i + l.get j i * v else coords x i := by
  let plus : ℝ := weight (n - 1 - j) - x[j]
  let minus : ℝ := -weight (n - 1 - j) - x[j]
  let c := if l.growth x j plus < l.growth x j minus then minus else plus
  have hweight := weight_pos (n - 1 - j)
  have hsign : |c + coords x j| = weight (n - 1 - j) := by
    dsimp only [c]
    split
    · rw [coords_apply, sub_add_cancel, abs_neg, abs_of_pos hweight]
    · rw [coords_apply, sub_add_cancel, abs_of_pos hweight]
  refine ⟨c + coords x j, c / l.get j j, hsign, by rw [add_sub_cancel_right], fun i => ?_⟩
  have hloop := getElem_foldl_set (fun i s => s + l.get j i * (c / l.get j j))
    (x.set j (c / l.get j j) j.isLt) j.isLt.le i
  have hset : (x.set j (c / l.get j j) j.isLt)[i] = if i = j then c / l.get j j else x[i] := by
    simp only [getElem_place, Vector.getElem_set, Fin.ext_iff, eq_comm]
  rw [hset] at hloop
  refine hloop.trans ?_
  by_cases hi : i = j
  · rw [hi, if_neg (lt_irrefl _), if_pos rfl, if_pos rfl]
  · rw [if_neg hi, if_neg hi]
    rfl

/-- The rows from place `k` on are solved, each with a right side of its weight, and an earlier
component is the sum of what the solved ones add to its row. -/
structure Grown (l : Lower ℝ n) (k : Nat) (x : Vector ℝ n) : Prop where
  solved : ∀ i : Fin n, k ≤ i → |(l.matrixᵀ *ᵥ coords x) i| = weight (n - 1 - i)
  known : ∀ i : Fin n, i < k → coords x i = ∑ r with k ≤ Fin.val r, l.get r i * coords x r

theorem Grown.growStep (hl : ∀ i, l.get i i ≠ 0) {i : Fin n} {x : Vector ℝ n}
    (h : l.Grown (i + 1) x) : l.Grown i (l.growStep i x) := by
  obtain ⟨b, v, hb, hv, hx⟩ := l.coords_growStep i x
  have hself : coords (l.growStep i x) i = v := (hx i).trans (if_pos rfl)
  have hlater (r : Fin n) (hr : i < r) : coords (l.growStep i x) r = coords x r := by
    rw [hx, if_neg hr.ne', if_neg hr.not_gt]
  have hsum (j : Fin n) {k : Fin n} (hk : i ≤ k) :
      ∑ r ∈ Finset.Ioi k, l.get r j * coords (l.growStep i x) r =
        ∑ r ∈ Finset.Ioi k, l.get r j * coords x r :=
    Finset.sum_congr rfl fun r hr => by rw [hlater r (hk.trans_lt (Finset.mem_Ioi.mp hr))]
  have hknown (j : Fin n) (hj : j ≤ i) :
      coords x j = ∑ r ∈ Finset.Ioi i, l.get r j * coords x r := by
    rw [h.known j (Nat.lt_succ_of_le hj)]
    exact Finset.sum_congr (Finset.ext fun r => by simp) fun _ _ => rfl
  refine ⟨fun j hj => ?solved, fun j hj => ?known⟩
  case solved =>
    rw [transpose_mulVec_apply, sum_Ici]
    rcases (Fin.le_def.mpr hj).eq_or_lt with rfl | hij
    · rw [hself, hsum i le_rfl, ← hknown i le_rfl, hv, mul_div_cancel₀ _ (hl i), sub_add_cancel, hb]
    · have hsolved := h.solved j hij
      rw [transpose_mulVec_apply, sum_Ici] at hsolved
      rwa [hlater j hij, hsum j hij.le]
  case known =>
    have hplaces : (Finset.univ.filter fun r : Fin n => (i : Nat) ≤ r) = Finset.Ici i := by
      ext r
      simp
    have hji : j < i := hj
    rw [hplaces, sum_Ici, hself, hsum j le_rfl, ← hknown j hji.le, hx, if_neg hji.ne, if_pos hji,
      add_comm]

theorem abs_transpose_mulVec_largeSolution (hl : ∀ i, l.get i i ≠ 0) (i : Fin n) :
    |(l.matrixᵀ *ᵥ coords l.largeSolution) i| = weight (n - 1 - i) := by
  have h : l.Grown 0 l.largeSolution := foldr_finRange_induction l.Grown
    ⟨fun i hi => absurd i.isLt (Nat.not_lt.mpr hi), fun i _ => ?zero⟩ fun i x h => h.growStep hl
  · exact h.solved i (Nat.zero_le _)
  · rw [coords_replicate_zero]
    simp

theorem largeSolution_ne_zero (hl : ∀ i, l.get i i ≠ 0) (hn : 0 < n) :
    coords l.largeSolution ≠ 0 := by
  intro hzero
  have hlast := abs_transpose_mulVec_largeSolution hl ⟨0, hn⟩
  rw [hzero, mulVec_zero] at hlast
  have hweight := weight_pos (n - 1 - 0)
  rw [← hlast, Pi.zero_apply, abs_zero] at hweight
  exact lt_irrefl _ hweight

theorem le_dotProduct_mulVec (hl : l.PositiveDiagonal) {a : ℝ} (ha : 0 < a)
    (h : ∀ v, a * (v ⬝ᵥ v) ≤ v ⬝ᵥ (l.matrix * l.matrixᵀ) *ᵥ v) (y : Fin n → ℝ) :
    a * (y ⬝ᵥ y) ≤ (l.matrix *ᵥ y) ⬝ᵥ (l.matrix *ᵥ y) := by
  have hdet : IsUnit l.matrixᵀ.det := by
    rw [det_transpose]
    exact (det_ne_zero hl.ne_zero).isUnit
  have hw : l.matrixᵀ *ᵥ (l.matrixᵀ⁻¹ *ᵥ y) = y := by
    rw [mulVec_mulVec, mul_nonsing_inv _ hdet, one_mulVec]
  generalize l.matrixᵀ⁻¹ *ᵥ y = w at hw
  have hbound := h w
  rw [dotProduct_mul_transpose, hw] at hbound
  have hcross : y ⬝ᵥ y = w ⬝ᵥ (l.matrix *ᵥ y) := by
    nth_rewrite 1 [← hw]
    rw [mulVec_transpose, dotProduct_mulVec]
  have hsquare := dotProduct_self_nonneg (l.matrix *ᵥ y - a • w)
  rw [sub_dotProduct, dotProduct_sub, dotProduct_sub, smul_dotProduct, smul_dotProduct,
    dotProduct_smul, dotProduct_smul, dotProduct_comm (l.matrix *ᵥ y) w, ← hcross] at hsquare
  simp only [smul_eq_mul] at hsquare
  have hscaled := mul_le_mul_of_nonneg_left hbound ha.le
  linarith

section

variable (hl : ∀ i, l.get i i ≠ 0) (hn : 0 < n)
include hl hn

theorem norm_largeSolution_pos : 0 < Geometry.norm l.largeSolution :=
  (norm_nonneg _).lt_of_ne' fun h => largeSolution_ne_zero hl hn (norm_eq_zero.mp h)

theorem smallestSingular_eq : l.smallestSingular =
    let x := l.largeSolution.map (· * (1 / Geometry.norm l.largeSolution))
    ⟨1 / Geometry.norm (l.follow x), x, l.follow x⟩ := by
  have hsome : ¬(n = 0 ∨ l.firstZero?.isSome) := by
    rw [firstZero?_eq_none_iff.mpr hl]
    rintro (h | h)
    · exact hn.ne' h
    · cases h
  exact if_neg hsome

theorem coords_left : coords l.smallestSingular.left =
    (1 / Geometry.norm l.largeSolution) • coords l.largeSolution := by
  rw [smallestSingular_eq hl hn]
  exact coords_map_mul _ _

theorem norm_left : Geometry.norm l.smallestSingular.left = 1 := by
  have hlarge := norm_largeSolution_pos hl hn
  rw [norm_eq, coords_left hl hn, smul_dotProduct, dotProduct_smul, ← norm_mul_self, smul_eq_mul,
    smul_eq_mul, Real.sqrt_eq_one]
  field_simp

theorem matrix_mulVec_right :
    l.matrix *ᵥ coords l.smallestSingular.right = coords l.smallestSingular.left := by
  rw [smallestSingular_eq hl hn]
  exact matrix_mulVec_follow hl _

theorem sigma_eq :
    l.smallestSingular.sigma = 1 / Geometry.norm l.smallestSingular.right := by
  rw [smallestSingular_eq hl hn]

theorem norm_right_pos : 0 < Geometry.norm l.smallestSingular.right := by
  refine (norm_nonneg _).lt_of_ne' fun hzero => ?_
  have hsolved := matrix_mulVec_right hl hn
  rw [norm_eq_zero.mp hzero, mulVec_zero] at hsolved
  have hunit := norm_left hl hn
  rw [norm_eq_zero.mpr hsolved.symm] at hunit
  exact zero_ne_one hunit

end

theorem le_sigma_mul_self {a : ℝ} {b : Symmetric ℝ n} (hl : b.cholesky = .ok l) (hn : 0 < n)
    (ha : 0 < a) (h : ∀ v, a * (v ⬝ᵥ v) ≤ v ⬝ᵥ b.matrix *ᵥ v) :
    a ≤ l.smallestSingular.sigma * l.smallestSingular.sigma := by
  have hpos := Symmetric.cholesky_positiveDiagonal hl
  have hdiagonal := hpos.ne_zero
  have hbound := le_dotProduct_mulVec hpos ha
    (fun v => by rw [Symmetric.cholesky_product hl]; exact h v) (coords l.smallestSingular.right)
  rw [matrix_mulVec_right hdiagonal hn, ← norm_mul_self, ← norm_mul_self, norm_left hdiagonal hn,
    one_mul] at hbound
  have hright := norm_right_pos hdiagonal hn
  rw [sigma_eq hdiagonal hn, div_mul_div_comm, one_mul, le_div_iff₀ (mul_pos hright hright)]
  exact hbound

end Lower

end LeastSquares
