import LeastSquares.Proofs.Infinite
import LeastSquares.Proofs.Linear.Minimizer
import Mathlib.Algebra.Order.Ring.Abs

namespace LeastSquares

open Matrix

variable {p : Nat}

section Interval

variable {l u : EReal} {x y : ℝ}

theorem exists_clamped (hl : l ≤ x) (hu : x ≤ u) (y : ℝ) :
    ∃ z : ℝ, z = min u (max l y) ∧ min x y ≤ z ∧ z ≤ max x y := by
  have hlow : ((min x y : ℝ) : EReal) ≤ min u (max l y) := by
    rw [EReal.coe_strictMono.monotone.map_min]
    exact min_le_min hu (le_max_right _ _)
  have hhigh : min u (max l y) ≤ ((max x y : ℝ) : EReal) := by
    rw [EReal.coe_strictMono.monotone.map_max]
    exact (min_le_right _ _).trans (max_le_max_right _ hl)
  have hback : Real.toEReal (min u (max l y)).toReal = min u (max l y) :=
    EReal.coe_toReal (ne_top_of_le_ne_top (EReal.coe_ne_top _) hhigh)
      (ne_bot_of_le_ne_bot (EReal.coe_ne_bot _) hlow)
  rw [← hback, EReal.coe_le_coe_iff] at hlow hhigh
  exact ⟨_, hback, hlow, hhigh⟩

theorem min_max_eq_iff (hl : l ≤ x) (hu : x ≤ u) : min u (max l y) = y ↔ l ≤ y ∧ y ≤ u := by
  constructor
  · intro h
    have hbetween : l ≤ min u (max l y) := le_min (hl.trans hu) (le_max_left _ _)
    exact ⟨h ▸ hbetween, h ▸ min_le_left _ _⟩
  · rintro ⟨hly, hyu⟩
    rw [max_eq_right hly, min_eq_right hyu]

theorem abs_clamped_sub_le {z w : ℝ} (hz : z = min u (max l y)) (hlw : l ≤ w) (hwu : w ≤ u) :
    |z - y| ≤ |w - y| := by
  -- Where `z` is not `y` itself, it is the side that stands between `y` and `w`.
  rcases lt_trichotomy z y with hzy | rfl | hyz
  · have hlt : min u (max l y) < max l y := by
      rw [← hz]
      exact (EReal.coe_lt_coe_iff.mpr hzy).trans_le (le_max_right _ _)
    have hu : (w : EReal) ≤ z := by
      rw [hz, min_eq_left ((min_lt_iff.mp hlt).resolve_right (lt_irrefl _)).le]
      exact hwu
    have hwz := EReal.coe_le_coe_iff.mp hu
    rw [abs_of_neg (sub_neg.mpr hzy), abs_of_neg (sub_neg.mpr (hwz.trans_lt hzy))]
    linarith
  · rw [sub_self, abs_zero]
    exact abs_nonneg _
  · have hlt : (y : EReal) < max l y := by
      refine (EReal.coe_lt_coe_iff.mpr hyz).trans_le ?_
      rw [hz]
      exact min_le_right _ _
    have hl : (z : EReal) ≤ w := by
      rw [hz]
      refine (min_le_right _ _).trans ?_
      rw [max_eq_left ((lt_max_iff.mp hlt).resolve_right (lt_irrefl _)).le]
      exact hlw
    have hzw := EReal.coe_le_coe_iff.mp hl
    rw [abs_of_pos (sub_pos.mpr hyz), abs_of_pos (sub_pos.mpr (hyz.trans_le hzw))]
    linarith

theorem between_sub {z : ℝ} (hlow : min x y ≤ z) (hhigh : z ≤ max x y) :
    |z - x| ≤ |y - x| ∧ 0 ≤ (z - x) * (y - x) := by
  rcases le_total x y with hxy | hyx
  · rw [min_eq_left hxy] at hlow
    rw [max_eq_right hxy] at hhigh
    rw [abs_of_nonneg (sub_nonneg.mpr hlow), abs_of_nonneg (sub_nonneg.mpr hxy)]
    exact ⟨sub_le_sub_right hhigh x, mul_nonneg (sub_nonneg.mpr hlow) (sub_nonneg.mpr hxy)⟩
  · rw [min_eq_right hyx] at hlow
    rw [max_eq_left hyx] at hhigh
    rw [abs_of_nonpos (sub_nonpos.mpr hhigh), abs_of_nonpos (sub_nonpos.mpr hyx)]
    exact ⟨neg_le_neg (sub_le_sub_right hlow x),
      mul_nonneg_of_nonpos_of_nonpos (sub_nonpos.mpr hhigh) (sub_nonpos.mpr hyx)⟩

end Interval

namespace Bounds

variable (b : Bounds EReal p)

noncomputable def lowerAt (i : Fin p) : EReal := (b.floor? i).getD ⊥

noncomputable def upperAt (i : Fin p) : EReal := (b.ceiling? i).getD ⊤

/-- The finite points of a box, of which a side may be infinite. -/
def Admits (x : Vector ℝ p) : Prop := ∀ i : Fin p, b.lowerAt i ≤ x[i] ∧ x[i] ≤ b.upperAt i

theorem getElem_project (x : Vector EReal p) (i : Fin p) :
    (b.project x)[i] = min (b.upperAt i) (max (b.lowerAt i) x[i]) := by
  have hlow (l y : EReal) : clampLow l y = max l y := by
    unfold clampLow
    split
    · next h => exact (max_eq_left h.le).symm
    · next h => exact (max_eq_right (not_lt.mp h)).symm
  have hhigh (u y : EReal) : clampHigh u y = min u y := by
    unfold clampHigh
    split
    · next h => exact (min_eq_left h.le).symm
    · next h => exact (min_eq_right (not_lt.mp h)).symm
  simp only [project, getElem_place, Vector.getElem_ofFn, elim_clampLow, elim_clampHigh]
  rw [hhigh, hlow]
  rfl

variable {b} {x₀ d : Vector ℝ p}

/-- `z` is the point of the box for `y`, as it is seen from the point `x₀` of the box. -/
structure Brings (b : Bounds EReal p) (x₀ y z : Vector ℝ p) : Prop where
  project : b.project (liftCoords y) = liftCoords z
  inside : b.Admits z
  same : z = y ↔ b.Admits y
  nearest : ∀ w, b.Admits w → ∀ i : Fin p, |z[i] - y[i]| ≤ |w[i] - y[i]|
  between : ∀ i : Fin p, |z[i] - x₀[i]| ≤ |y[i] - x₀[i]| ∧ 0 ≤ (z[i] - x₀[i]) * (y[i] - x₀[i])

theorem exists_brings (hx : b.Admits x₀) (y : Vector ℝ p) : ∃ z, b.Brings x₀ y z := by
  choose z hz hlow hhigh using fun i => exists_clamped (hx i).1 (hx i).2 y[i]
  have hplace (i : Fin p) : (Vector.ofFn z)[i] = z i := by simp
  refine ⟨Vector.ofFn z, ?project, ?inside, ?same, ?nearest, ?between⟩
  case project =>
    apply Vector.ext
    intro i hi
    have hat := b.getElem_project (liftCoords y) ⟨i, hi⟩
    rw [getElem_liftCoords, ← hz, ← hplace ⟨i, hi⟩] at hat
    exact hat.trans (getElem_liftCoords _ _).symm
  case inside =>
    intro i
    rw [hplace, hz]
    exact ⟨le_min ((hx i).1.trans (hx i).2) (le_max_left _ _), min_le_left _ _⟩
  case same =>
    constructor
    · intro hzy i
      refine (min_max_eq_iff (hx i).1 (hx i).2).mp ?_
      rw [← hz, ← hplace, hzy]
    · intro hy
      apply Vector.ext
      intro i hi
      have hat := (min_max_eq_iff (hx ⟨i, hi⟩).1 (hx ⟨i, hi⟩).2).mpr (hy ⟨i, hi⟩)
      rw [← hz, EReal.coe_eq_coe_iff, ← hplace] at hat
      exact hat
  case nearest =>
    intro w hw i
    rw [hplace]
    exact abs_clamped_sub_le (hz i) (hw i).1 (hw i).2
  case between =>
    intro i
    rw [hplace]
    exact between_sub (hlow i) (hhigh i)

theorem project_of_admits {y : Vector ℝ p} (hy : b.Admits y) :
    b.project (liftCoords y) = liftCoords y := by
  obtain ⟨z, hz⟩ := exists_brings hy y
  rw [hz.project, hz.same.mpr hy]

/-- With infinite numbers among the sides the answer is `o`, and where every side is a real number
it is `o` among those, too. -/
def Answers (b : Bounds EReal p) (x₀ g : Vector ℝ p) (h : Symmetric ℝ p) (d : Vector ℝ p)
    (t : Trial ℝ p) (o : Option (Trial ℝ p)) : Prop :=
  b.constrain? (liftCoords x₀) (liftCoords g) h.lifted (liftCoords d) t.lifted =
      o.map Trial.lifted ∧
    ∀ b' : Bounds ℝ p, b = b'.lifted → b'.constrain? x₀ g h d t = o

theorem answers_of_project {z : Vector ℝ p} (g : Vector ℝ p) (h : Symmetric ℝ p) (d : Vector ℝ p)
    {t : Trial ℝ p} (hz : b.project (liftCoords (x₀ + t.step)) = liftCoords z) :
    b.Answers x₀ g h d t
      (if z - x₀ = t.step then none else some (t.rescored g h d (z - x₀))) := by
  constructor
  · have hstep : b.project (liftCoords x₀ + t.lifted.step) - liftCoords x₀ =
        liftCoords (z - x₀) := by
      rw [← liftCoords_sub, ← hz, ← liftCoords_add]
      rfl
    have hsame : (liftCoords (z - x₀) == t.lifted.step) = true ↔ z - x₀ = t.step :=
      beq_iff_eq.trans liftCoords_injective.eq_iff
    unfold constrain?
    dsimp only
    rw [hstep, Trial.rescored_lifted]
    by_cases hkept : z - x₀ = t.step
    · rw [if_pos (hsame.mpr hkept), if_pos hkept]
      rfl
    · rw [if_neg (hsame.not.mpr hkept), if_neg hkept]
      rfl
  · rintro b' rfl
    rw [project_lifted, liftCoords_injective.eq_iff] at hz
    unfold constrain?
    rw [hz]
    exact if_congr beq_iff_eq rfl rfl

/-- What is left of the trial `t` in the box. -/
structure Cuts (b : Bounds EReal p) (x₀ g : Vector ℝ p) (h : Symmetric ℝ p) (d : Vector ℝ p)
    (t t' : Trial ℝ p) : Prop where
  place : liftCoords (x₀ + t'.step) = b.project (liftCoords (x₀ + t.step))
  inside : b.Admits (x₀ + t'.step)
  nearest : ∀ w, b.Admits w → ∀ i : Fin p,
    |(x₀ + t'.step)[i] - (x₀ + t.step)[i]| ≤ |w[i] - (x₀ + t.step)[i]|
  shorter : ∀ i : Fin p, |t'.step[i]| ≤ |t.step[i]| ∧ 0 ≤ t'.step[i] * t.step[i]
  length : t'.length = Geometry.norm (timesEach t'.step d)
  length_le : t'.length ≤ Geometry.norm (timesEach t.step d)
  slope : t'.slope = coords g ⬝ᵥ coords t'.step
  reduction : t'.reduction = max 0 (-(coords g ⬝ᵥ coords t'.step +
    1 / 2 * (coords t'.step ⬝ᵥ h.matrix *ᵥ coords t'.step)))
  kept : t'.step ≠ Vector.replicate p 0 → t'.parameter = t.parameter ∧
    t'.newtonReduction = t.newtonReduction ∧ t'.newtonLength = t.newtonLength
  nothing : t'.step = Vector.replicate p 0 → t' = Trial.zero p

end Bounds

theorem norm_timesEach_le {s s' : Vector ℝ p} (d : Vector ℝ p)
    (h : ∀ i : Fin p, |s'[i]| ≤ |s[i]|) :
    Geometry.norm (timesEach s' d) ≤ Geometry.norm (timesEach s d) := by
  rw [norm_eq, norm_eq, coords_timesEach, coords_timesEach]
  refine Real.sqrt_le_sqrt (Finset.sum_le_sum fun i _ => ?_)
  rw [← sq, ← sq, Pi.mul_apply, Pi.mul_apply, mul_pow, mul_pow]
  exact mul_le_mul_of_nonneg_right (sq_le_sq.mpr (h i)) (sq_nonneg _)

theorem norm_timesEach_eq_zero {s d : Vector ℝ p} (hd : ∀ i : Fin p, 0 < d[i]) :
    Geometry.norm (timesEach s d) = 0 ↔ s = Vector.replicate p 0 := by
  rw [norm_eq_zero, coords_timesEach, ← coords_injective.eq_iff, coords_replicate_zero]
  constructor
  · intro h
    funext i
    exact (mul_eq_zero.mp (congrFun h i)).resolve_right (hd i).ne'
  · intro h
    rw [h, zero_mul]

namespace Trial

variable {g d step : Vector ℝ p}

theorem rescored_zero (t : Trial ℝ p) (g : Vector ℝ p) (h : Symmetric ℝ p) (d : Vector ℝ p) :
    t.rescored g h d (Vector.replicate p 0) = Trial.zero p := by
  have hlength : Geometry.norm (timesEach (Vector.replicate p 0) d) = 0 := by
    rw [norm_eq_zero, coords_timesEach, coords_replicate_zero, zero_mul]
  have hslope : dot g (Vector.replicate p 0) = 0 := by
    rw [dot_eq, coords_replicate_zero, dotProduct_zero]
  unfold rescored
  dsimp only
  rw [if_pos (beq_iff_eq.mpr hlength), hlength, hslope]
  rfl

theorem rescored_of_ne (t : Trial ℝ p) (g : Vector ℝ p) (h : Symmetric ℝ p)
    (hd : ∀ i : Fin p, 0 < d[i]) (hstep : step ≠ Vector.replicate p 0) :
    t.rescored g h d step =
      { t with
        step
        length := Geometry.norm (timesEach step d)
        slope := dot g step
        reduction := max (-(dot g step + 1 / 2 * h.quadraticForm step)) 0 } := by
  have hlength : Geometry.norm (timesEach step d) ≠ 0 :=
    (norm_timesEach_eq_zero hd).not.mpr hstep
  unfold rescored
  dsimp only
  rw [if_neg (beq_iff_eq.not.mpr hlength)]

theorem rescored_score (t : Trial ℝ p) (g : Vector ℝ p) (h : Symmetric ℝ p)
    (hd : ∀ i : Fin p, 0 < d[i]) (step : Vector ℝ p) :
    (t.rescored g h d step).step = step ∧
      (t.rescored g h d step).length = Geometry.norm (timesEach step d) ∧
      (t.rescored g h d step).slope = coords g ⬝ᵥ coords step ∧
      (t.rescored g h d step).reduction = max 0 (-(coords g ⬝ᵥ coords step +
        1 / 2 * (coords step ⬝ᵥ h.matrix *ᵥ coords step))) := by
  rw [← dot_eq, ← Symmetric.quadraticForm_eq]
  by_cases hstep : step = Vector.replicate p 0
  · have hform : dot g step = 0 ∧ h.quadraticForm step = 0 := by
      rw [dot_eq, Symmetric.quadraticForm_eq, hstep, coords_replicate_zero]
      exact ⟨dotProduct_zero _, zero_dotProduct _⟩
    rw [(norm_timesEach_eq_zero hd).mpr hstep, hform.1, hform.2, hstep, rescored_zero]
    exact ⟨rfl, rfl, rfl, by simp [Trial.zero]⟩
  · rw [rescored_of_ne t g h hd hstep]
    exact ⟨rfl, rfl, rfl, max_comm _ _⟩

end Trial

namespace Bounds

variable {b : Bounds EReal p} {x₀ d : Vector ℝ p}

theorem cuts_rescored {z : Vector ℝ p} (hd : ∀ i : Fin p, 0 < d[i]) (g : Vector ℝ p)
    (h : Symmetric ℝ p) {t : Trial ℝ p} (hz : b.Brings x₀ (x₀ + t.step) z) :
    b.Cuts x₀ g h d t (t.rescored g h d (z - x₀)) := by
  obtain ⟨hstep, hlength, hslope, hreduction⟩ := t.rescored_score g h hd (z - x₀)
  have hplace : x₀ + (t.rescored g h d (z - x₀)).step = z := by
    rw [hstep, vector_add_sub_cancel]
  have hshorter (i : Fin p) :
      |(z - x₀)[i]| ≤ |t.step[i]| ∧ 0 ≤ (z - x₀)[i] * t.step[i] := by
    simpa using hz.between i
  constructor
  case place => rw [hplace, hz.project]
  case inside =>
    rw [hplace]
    exact hz.inside
  case nearest =>
    rw [hplace]
    exact hz.nearest
  case shorter => rwa [hstep]
  case length => rw [hlength, hstep]
  case length_le =>
    rw [hlength]
    exact norm_timesEach_le d fun i => (hshorter i).1
  case slope => rw [hslope, hstep]
  case reduction => rw [hreduction, hstep]
  case kept =>
    rw [hstep]
    intro hne
    rw [Trial.rescored_of_ne t g h hd hne]
    exact ⟨rfl, rfl, rfl⟩
  case nothing =>
    rw [hstep]
    intro hzero
    rw [hzero, Trial.rescored_zero]

theorem answers_of_admits (g : Vector ℝ p) (h : Symmetric ℝ p) (d : Vector ℝ p) {t : Trial ℝ p}
    (ht : b.Admits (x₀ + t.step)) : b.Answers x₀ g h d t none := by
  have hstay := answers_of_project g h d (project_of_admits ht)
  rwa [if_pos (vector_add_sub_cancel_left x₀ t.step)] at hstay

/-- A trial is cut to the box where it leaves it, and then stays as it is. -/
theorem constrain_cuts (hx : b.Admits x₀) (hd : ∀ i : Fin p, 0 < d[i]) (g : Vector ℝ p)
    (h : Symmetric ℝ p) (t : Trial ℝ p) :
    ∃ o, b.Answers x₀ g h d t o ∧ (o = none ↔ b.Admits (x₀ + t.step)) ∧
      ∀ t', o = some t' → b.Cuts x₀ g h d t t' ∧ b.Answers x₀ g h d t' none := by
  obtain ⟨z, hz⟩ := exists_brings hx (x₀ + t.step)
  by_cases hstays : b.Admits (x₀ + t.step)
  · exact ⟨none, answers_of_admits g h d hstays, iff_of_true rfl hstays, nofun⟩
  · have hleaves : z - x₀ ≠ t.step := by
      intro hstep
      rw [← hz.same, ← hstep, vector_add_sub_cancel] at hstays
      exact hstays rfl
    have hanswers := answers_of_project g h d hz.project
    rw [if_neg hleaves] at hanswers
    refine ⟨_, hanswers, iff_of_false nofun hstays, ?_⟩
    rintro _ ⟨⟩
    have hcuts := cuts_rescored hd g h hz
    exact ⟨hcuts, answers_of_admits g h d hcuts.inside⟩

/-- The first component is held from below only, the second is held still. -/
noncomputable def halfLine : Bounds EReal 2 where
  lower := some (#v[0, 1] : Vector EReal 2)
  upper := some (#v[⊤, 1] : Vector EReal 2)

theorem constrain_cuts_half_line :
    ∃ t', halfLine.Answers #v[1 / 2, 1] #v[1, 1] ⟨⟨#v[1, 0, 1]⟩⟩ #v[1, 2]
        { Trial.zero 2 with step := #v[-1, -1 / 2] } (some t') ∧
      halfLine.Cuts #v[1 / 2, 1] #v[1, 1] ⟨⟨#v[1, 0, 1]⟩⟩ #v[1, 2]
        { Trial.zero 2 with step := #v[-1, -1 / 2] } t' ∧
      halfLine.Answers #v[1 / 2, 1] #v[1, 1] ⟨⟨#v[1, 0, 1]⟩⟩ #v[1, 2] t' none := by
  have hx : halfLine.Admits #v[1 / 2, 1] := by
    have hhalf : (0 : EReal) ≤ ((1 / 2 : ℝ) : EReal) := EReal.coe_nonneg.mpr (by norm_num)
    intro i
    match i with
    | 0 => exact ⟨hhalf, le_top⟩
    | 1 => exact ⟨le_rfl, le_rfl⟩
  have hd (i : Fin 2) : 0 < (#v[1, 2] : Vector ℝ 2)[i] := by
    match i with
    | 0 => exact one_pos
    | 1 => exact two_pos
  have hleaves : ¬halfLine.Admits (#v[1 / 2, 1] + #v[-1, -1 / 2]) := by
    intro hinside
    have hlow : (0 : ℝ) ≤ coords (#v[1 / 2, 1] + #v[-1, -1 / 2]) 0 :=
      EReal.coe_nonneg.mp (hinside 0).1
    have hout : ¬(0 : ℝ) ≤ 1 / 2 + -1 := by norm_num
    rw [coords_add] at hlow
    exact hout hlow
  obtain ⟨o, hanswers, hnone, hsome⟩ := constrain_cuts hx hd #v[1, 1] ⟨⟨#v[1, 0, 1]⟩⟩
    { Trial.zero 2 with step := #v[-1, -1 / 2] }
  cases o with
  | none => exact absurd (hnone.mp rfl) hleaves
  | some t' => exact ⟨t', hanswers, hsome t' rfl⟩

end Bounds

end LeastSquares
