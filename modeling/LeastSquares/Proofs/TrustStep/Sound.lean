import LeastSquares.Proofs.TrustStep.Outcome

namespace LeastSquares

open Matrix

variable {n : Nat}

/-- The shift whose step ends on the boundary of the region. -/
structure Multiplier (h : Symmetric ℝ n) (g : Vector ℝ n) (radius a : ℝ) : Prop where
  pos : 0 < a
  reaches : ∃ s, Solves h g a s ∧ Geometry.norm s = radius

namespace StepMemory

/-- What a memory carries over to another radius is a bound for every radius. -/
structure Sound (m : StepMemory ℝ n) (h : Symmetric ℝ n) (g : Vector ℝ n) : Prop where
  circles : ∀ b, m.circles = some b → b = h.gershgorin
  gradientNorm : m.gradientNorm = Geometry.norm g
  convex : ∀ b, 0 ≤ b → (h.addToDiagonal b).matrix.PosDef → -m.newtonLength ≤ b
  slope_nonneg : 0 ≤ m.newtonSlope
  slope : 0 < m.newtonLength → ∀ b s, 0 ≤ b → Solves h g b s →
    (m.newtonLength - Geometry.norm s) * m.newtonSlope ≤ b
  last : ∀ f, m.last = some f → (h.addToDiagonal f.parameter).cholesky = .ok f.factor ∧
    Solves h g f.parameter f.step ∧ f.length = Geometry.norm f.step

/-- The last factor is that of the parameter, where that is not zero. -/
def Linked (m : StepMemory ℝ n) : Prop :=
  m.parameter = 0 ∨ ∀ f, m.last = some f → f.parameter = |m.parameter|

theorem Linked.solves {m : StepMemory ℝ n} (hm : m.Linked) {h : Symmetric ℝ n} {g : Vector ℝ n}
    {last : Factored ℝ n} (hlast : m.last = some last)
    (hs : Solves h g last.parameter last.step) (hpos : 0 < Scalar.abs m.parameter) :
    Solves h g (Scalar.abs m.parameter) last.step := by
  obtain hzero | hlink := hm
  · exact absurd hzero (abs_pos.mp hpos)
  · have hsame : last.parameter = Scalar.abs m.parameter := hlink last hlast
    exact hsame ▸ hs

end StepMemory

namespace StepTask

def Below (t : StepTask ℝ n) (v : ℝ) : Prop :=
  ∀ b s, 0 ≤ b → Solves t.hessian t.gradient b s → Geometry.norm s ≤ t.radius → v ≤ b

/-- No shift from `floor` on whose step is within the radius is below `v`. A model that was taken
for singular has a floor above zero in its later calls. -/
def BelowFrom (t : StepTask ℝ n) (floor v : ℝ) : Prop :=
  ∀ b s, floor ≤ b → Solves t.hessian t.gradient b s → Geometry.norm s ≤ t.radius → v ≤ b

/-- No shift is above `v` that has no step or one which is not shorter than the radius. -/
def Above (t : StepTask ℝ n) (v : ℝ) : Prop :=
  ∀ b, (∀ s, Solves t.hessian t.gradient b s → t.radius ≤ Geometry.norm s) → b ≤ v

structure Encloses (t : StepTask ℝ n) (m : StepMemory ℝ n) : Prop where
  sound : m.Sound t.hessian t.gradient
  low_nonneg : 0 ≤ m.low
  high_nonneg : 0 ≤ m.high
  low : t.Below m.low
  high : t.Above m.high

variable {t : StepTask ℝ n} {m : StepMemory ℝ n} {floor v a : ℝ}

theorem Below.max {v' : ℝ} (hv : t.Below v) (hv' : t.Below v') : t.Below (max v v') :=
  fun b s hb hs hshort => max_le (hv b s hb hs hshort) (hv' b s hb hs hshort)

theorem below_zero : t.Below 0 := fun _ _ hb _ _ => hb

theorem below_of_posDef (hv : ∀ b, (t.hessian.addToDiagonal b).matrix.PosDef → v ≤ b) :
    t.Below v :=
  fun b _ _ hs _ => hv b hs.posDef

theorem below_of_long {s : Vector ℝ n} (hs : Solves t.hessian t.gradient v s)
    (hlong : t.radius < Geometry.norm s) : t.Below v :=
  fun _ _ _ hu hshort => (hs.lt_of_norm_lt hu (hshort.trans_lt hlong)).le

theorem Above.min {v' : ℝ} (hv : t.Above v) (hv' : t.Above v') : t.Above (min v v') :=
  fun b hb => le_min (hv b hb) (hv' b hb)

theorem Above.mono {v' : ℝ} (hv : t.Above v) (hle : v ≤ v') : t.Above v' :=
  fun b hb => (hv b hb).trans hle

theorem above_of_short {s : Vector ℝ n} (hs : Solves t.hessian t.gradient v s)
    (hshort : Geometry.norm s < t.radius) : t.Above v := by
  intro b hb
  by_contra hlt
  obtain ⟨u, hu⟩ := Symmetric.exists_solves (Symmetric.posDef_mono hs.posDef (not_le.mp hlt).le)
    t.gradient
  exact hlt (hu.lt_of_norm_lt hs (hshort.trans_le (hb u hu))).le

theorem Below.from (hv : t.Below v) (hfloor : 0 ≤ floor) : t.BelowFrom floor v :=
  fun b s hb hs hshort => hv b s (hfloor.trans hb) hs hshort

/-- Between an upper bound and a lower one that passed it there would be a shift with a step
inside the region that is not above the lower bound. -/
theorem BelowFrom.le_above (hv : t.BelowFrom floor v) (ha : t.Above a) (hfloor : floor ≤ a) :
    v ≤ a := by
  by_contra hlt
  obtain ⟨c, hhigh, hlow⟩ := exists_between (not_le.mp hlt)
  have hinside : ∃ s, Solves t.hessian t.gradient c s ∧ Geometry.norm s < t.radius := by
    by_contra hnone
    push Not at hnone
    exact absurd (ha c hnone) (not_le.mpr hhigh)
  obtain ⟨s, hs, hshort⟩ := hinside
  exact absurd (hv c s (hfloor.trans hhigh.le) hs hshort.le) (not_le.mpr hlow)

theorem le_mul_sqrt_div {x y : ℝ} (hx : 0 ≤ x) (hxy : x ≤ y) : x ≤ y * √(x / y) := by
  rcases (hx.trans hxy).eq_or_lt with hzero | hpos
  · rw [← hzero, zero_mul]
    exact hxy.trans hzero.ge
  · have hratio : 0 ≤ x / y := div_nonneg hx hpos.le
    have hone : x / y ≤ 1 := (div_le_one hpos).mpr hxy
    have hroot : x / y ≤ √(x / y) := by
      apply Real.le_sqrt_of_sq_le
      rw [sq]
      exact mul_le_of_le_one_left hratio hone
    calc x = y * (x / y) := (mul_div_cancel₀ x hpos.ne').symm
      _ ≤ y * √(x / y) := mul_le_mul_of_nonneg_left hroot hpos.le

namespace Encloses

theorem contains (hm : t.Encloses m) (ha : Multiplier t.hessian t.gradient t.radius a) :
    m.low ≤ a ∧ a ≤ m.high := by
  obtain ⟨s, hs, hreaches⟩ := ha.reaches
  refine ⟨hm.low a s ha.pos.le hs hreaches.le, hm.high a fun u hu => ?_⟩
  rw [hu.unique hs, hreaches]

theorem low_le_high (hm : t.Encloses m) : m.low ≤ m.high :=
  (hm.low.from le_rfl).le_above hm.high hm.high_nonneg

theorem widen (hm : t.Encloses m) : t.Encloses m.widen := by
  unfold StepMemory.widen
  split
  · next hle =>
    have hlow := hm.low_nonneg
    exact ⟨{ hm.sound with }, hlow, by dsimp only; linarith, hm.low, hm.high.mono (by linarith)⟩
  · exact hm

theorem raiseLow (hm : t.Encloses m) (hv : t.Below v) : t.Encloses (m.raiseLow v) :=
  { hm with
    sound := { hm.sound with }
    low_nonneg := hm.low_nonneg.trans (le_max_left m.low v)
    low := hm.low.max hv }

theorem cutHigh (hm : t.Encloses m) (hnonneg : 0 ≤ v) (hv : t.Above v) :
    t.Encloses { m with high := min m.high v } :=
  { hm with
    sound := { hm.sound with }
    high_nonneg := le_min hm.high_nonneg hnonneg
    high := hm.high.min hv }

theorem withCount (hm : t.Encloses m) (k : Int) : t.Encloses { m with count := k } :=
  { hm with sound := { hm.sound with } }

theorem withLast (hm : t.Encloses m) {f : Factored ℝ n}
    (hfactor : (t.hessian.addToDiagonal f.parameter).cholesky = .ok f.factor)
    (hs : Solves t.hessian t.gradient f.parameter f.step)
    (hlength : f.length = Geometry.norm f.step) : t.Encloses { m with last := some f } :=
  { hm with
    sound := { hm.sound with
      last := by
        rintro f' hf
        obtain rfl := Option.some.inj hf
        exact ⟨hfactor, hs, hlength⟩ } }

theorem le_safeParameter (hm : t.Encloses m) (a : ℝ) : m.low ≤ t.safeParameter m a := by
  unfold StepTask.safeParameter
  have hsingular : (0 : ℝ) < singularFactor := mul_pos (by norm_num) epsilon_pos
  split
  · have hlow : m.low ≤ max (max m.low (-(m.circles.elim 0 Prod.fst))) 0 :=
      (le_max_left _ _).trans (le_max_left _ _)
    have hpast : 0 ≤ singularFactor * max t.largestEntry 1 :=
      (mul_pos hsingular (lt_max_of_lt_right one_pos)).le
    have hnonneg := hm.low_nonneg
    linarith
  · split
    · rw [max_eq_left hm.low_nonneg, sqrt_eq]
      have hmean := le_mul_sqrt_div hm.low_nonneg hm.low_le_high
      exact hmean.trans (mul_le_mul_of_nonneg_left (le_max_right _ _) hm.high_nonneg)
    · next h =>
      rw [not_or, not_lt] at h
      exact h.1

theorem safeParameter_nonneg (hm : t.Encloses m) (a : ℝ) : 0 ≤ t.safeParameter m a :=
  hm.low_nonneg.trans (hm.le_safeParameter a)

end Encloses

section

variable (hr : 0 < t.radius)
include hr

theorem encloses_bracketMemory (hm : m.Sound t.hessian t.gradient) (hlow : t.Below m.low) :
    t.Encloses (t.bracketMemory m) := by
  have hcircles := circles_getD hm.circles
  have habove : t.Above (m.gradientNorm / t.radius - t.hessian.gershgorin.1) := by
    rw [hm.gradientNorm]
    exact fun b hb => le_ratio_sub_circle hr hb
  unfold bracketMemory
  rw [hcircles]
  apply Encloses.widen
  refine ⟨{ hm with circles := fun b hb => (Option.some.inj hb).symm }, le_max_right _ _, ?_, ?_,
    ?_⟩
  · dsimp only
    split
    · norm_num
    · next h => exact (not_le.mp h).le
  · refine (hlow.max fun b s hb hs hshort => ?_).max below_zero
    rw [hm.gradientNorm]
    exact hs.ratio_sub_circle_le hb hr hshort
  · dsimp only
    split
    · next h => exact habove.mono (h.trans (by norm_num))
    · exact habove

theorem encloses_restartMemory (hm : m.Sound t.hessian t.gradient) :
    t.Encloses (t.restartMemory m) := by
  have hconvex : t.Below (max (-m.newtonLength) 0) :=
    Below.max (fun b s hb hs _ => hm.convex b hb hs.posDef) below_zero
  unfold restartMemory
  dsimp only
  split
  · next hpos =>
    refine encloses_bracketMemory hr ?_ (hconvex.max fun b s hb hs hshort => ?_)
    · exact { hm with }
    · have hless := mul_le_mul_of_nonneg_right (sub_le_sub_left hshort m.newtonLength)
        hm.slope_nonneg
      exact hless.trans (hm.slope hpos b s hb hs)
  · refine encloses_bracketMemory hr ?_ hconvex
    exact { hm with }

end

theorem Encloses.cutByLast (hm : t.Encloses m) (hlink : m.Linked) {last : Factored ℝ n}
    (hlast : m.last = some last) : t.Encloses (t.cutByLast m last) := by
  obtain ⟨-, hs, hlength⟩ := hm.sound.last last hlast
  have hbefore := hlink.solves hlast hs
  unfold StepTask.cutByLast
  dsimp only
  apply Encloses.widen
  split
  · next hcut =>
    rw [hlength] at hcut
    exact hm.raiseLow (below_of_long (hbefore hcut.1) hcut.2)
  · split
    · next hcut =>
      rw [hlength] at hcut
      exact hm.cutHigh hcut.1.le (above_of_short (hbefore hcut.1) hcut.2)
    · exact hm

end StepTask

end LeastSquares
