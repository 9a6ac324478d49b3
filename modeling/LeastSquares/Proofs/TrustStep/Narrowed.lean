import LeastSquares.Proofs.TrustStep.Carried
import LeastSquares.Proofs.TrustStep.Decreasing

namespace LeastSquares

open Matrix

variable {n : Nat}

namespace StepTask

/-- Bounds from both sides, of the shifts from `floor` on, which may have met. -/
structure Flanks (t : StepTask ℝ n) (floor : ℝ) (m : StepMemory ℝ n) : Prop where
  floor_nonneg : 0 ≤ floor
  floor_le : floor ≤ m.low
  floor_eq : floor = 0 ∨ floor ≤ -m.newtonLength
  low : t.BelowFrom floor m.low
  high : t.Above m.high
  posDef : (t.hessian.addToDiagonal m.high).matrix.PosDef

structure Narrows (t : StepTask ℝ n) (floor : ℝ) (m : StepMemory ℝ n) : Prop
    extends Flanks t floor m where
  floor_lt : floor < m.high

def Leaves (m : StepMemory ℝ n) (a : ℝ) : Prop := a < m.low ∨ m.low < m.high ∧ m.high ≤ a

variable {t : StepTask ℝ n} {m : StepMemory ℝ n} {w : StepWork ℝ n} {floor v a : ℝ}

theorem BelowFrom.max {v' : ℝ} (hv : t.BelowFrom floor v) (hv' : t.BelowFrom floor v') :
    t.BelowFrom floor (max v v') :=
  fun b s hb hs hshort => max_le (hv b s hb hs hshort) (hv' b s hb hs hshort)

theorem BelowFrom.lt_of_short {s : Vector ℝ n} (hv : t.BelowFrom floor v)
    (hs : Solves t.hessian t.gradient a s) (hshort : Geometry.norm s < t.radius)
    (ha : floor < a) : v < a := by
  obtain ⟨b, u, hb, hlt, hu, hinside⟩ := hs.exists_less hshort ha
  exact (hv b u hb hu hinside).trans_lt hlt

namespace Flanks

theorem widen (hm : t.Flanks floor m) : t.Narrows floor m.widen := by
  have hfloor := hm.floor_nonneg
  have hlow := hm.floor_le
  rw [StepMemory.widen]
  split
  · next hle =>
    have hmore : m.high ≤ 2 * m.low + 1 / 1000 := by linarith
    exact { hm with
      high := hm.high.mono hmore
      posDef := Symmetric.posDef_mono hm.posDef hmore
      floor_lt := by
        change floor < 2 * m.low + 1 / 1000
        linarith }
  · next hlt => exact { hm with floor_lt := hlow.trans_lt (not_le.mp hlt) }

theorem raiseLow (hm : t.Flanks floor m) (hv : t.BelowFrom floor v) :
    t.Flanks floor (m.raiseLow v) :=
  { hm with
    floor_le := hm.floor_le.trans (le_max_left _ _)
    low := hm.low.max hv }

theorem cutHigh (hm : t.Flanks floor m) (ha : t.Above a)
    (hdef : (t.hessian.addToDiagonal a).matrix.PosDef) :
    t.Flanks floor { m with high := min m.high a } :=
  { hm with
    high := hm.high.min ha
    posDef := by
      dsimp only
      obtain h | h := min_choice m.high a <;> rw [h]
      · exact hm.posDef
      · exact hdef }

end Flanks

theorem lt_mul_sqrt_div {x y : ℝ} (hx : 0 < x) (hxy : x < y) : x < y * √(x / y) := by
  have hy : 0 < y := hx.trans hxy
  have hratio : 0 < x / y := div_pos hx hy
  have hroot : x / y < √(x / y) := by
    rw [Real.lt_sqrt hratio.le, sq]
    exact mul_lt_of_lt_one_left hratio ((div_lt_one hy).mpr hxy)
  calc x = y * (x / y) := (mul_div_cancel₀ x hy.ne').symm
    _ < y * √(x / y) := mul_lt_mul_of_pos_left hroot hy

namespace Narrows

theorem low_le (hm : t.Narrows floor m) : m.low ≤ m.high :=
  hm.low.le_above hm.high hm.floor_lt.le

theorem low_nonneg (hm : t.Narrows floor m) : 0 ≤ m.low := hm.floor_nonneg.trans hm.floor_le

theorem high_pos (hm : t.Narrows floor m) : 0 < m.high := hm.floor_nonneg.trans_lt hm.floor_lt

theorem raiseLow (hm : t.Narrows floor m) (hv : t.BelowFrom floor v) :
    t.Narrows floor (m.raiseLow v) :=
  { hm.toFlanks.raiseLow hv with floor_lt := hm.floor_lt }

theorem cutHigh (hm : t.Narrows floor m) (ha : t.Above a)
    (hdef : (t.hessian.addToDiagonal a).matrix.PosDef) (hfloor : floor < a) :
    t.Narrows floor { m with high := min m.high a } :=
  { hm.toFlanks.cutHigh ha hdef with floor_lt := lt_min hm.floor_lt hfloor }

theorem mean_within (hm : t.Narrows floor m) :
    let p := m.high * max (1 / 1000) (Scalar.sqrt (max m.low 0 / m.high))
    m.low ≤ p ∧ p ≤ m.high ∧ floor < p ∧ (m.low < m.high → p < m.high) := by
  intro p
  have hlow := hm.low_nonneg
  have hhigh := hm.high_pos
  have hp : p = m.high * max (1 / 1000) √(m.low / m.high) := by
    simp only [p, max_eq_left hlow, sqrt_eq]
  have hmean : m.high * √(m.low / m.high) ≤ p := by
    rw [hp]
    exact mul_le_mul_of_nonneg_left (le_max_right _ _) hhigh.le
  have hone : √(m.low / m.high) ≤ 1 := by
    rw [Real.sqrt_le_one]
    exact (div_le_one hhigh).mpr hm.low_le
  refine ⟨(le_mul_sqrt_div hlow hm.low_le).trans hmean, ?_, ?_, fun hlt => ?_⟩
  · rw [hp]
    exact mul_le_of_le_one_right hhigh.le (max_le (by norm_num) hone)
  -- Where the lower end is zero the mean is positive and the floor is not; elsewhere it is above
  -- the lower end, or at both ends.
  · obtain hzero | hpos := hlow.eq_or_lt
    · have hfloor : floor ≤ 0 := hzero ▸ hm.floor_le
      apply hfloor.trans_lt
      rw [hp]
      exact mul_pos hhigh (lt_max_of_lt_left (by norm_num))
    · obtain heq | hlt := hm.low_le.eq_or_lt
      · rw [heq, div_self hhigh.ne', Real.sqrt_one, mul_one] at hmean
        exact hm.floor_lt.trans_le hmean
      · exact hm.floor_le.trans_lt ((lt_mul_sqrt_div hpos hlt).trans_le hmean)
  · rw [hp]
    apply mul_lt_of_lt_one_right hhigh (max_lt (by norm_num) _)
    rw [Real.sqrt_lt' one_pos, one_pow, div_lt_one hhigh]
    exact hlt

theorem safeParameter_within (hm : t.Narrows floor m) (hcount : m.count ≤ t.limit) (a : ℝ) :
    let p := t.safeParameter m a
    m.low ≤ p ∧ p ≤ m.high ∧ (floor < p ∨ p = 0) ∧ (m.low < m.high → p < m.high) := by
  intro p
  by_cases hout : a < m.low ∨ m.high ≤ a ∨ a ≤ -m.newtonLength
  · have hp : p = m.high * max (1 / 1000) (Scalar.sqrt (max m.low 0 / m.high)) := by
      simp only [p, safeParameter, if_neg (not_lt.mpr hcount), if_pos hout]
    obtain ⟨hlow, hhigh, hfloor, hlt⟩ := hm.mean_within
    rw [hp]
    exact ⟨hlow, hhigh, .inl hfloor, hlt⟩
  · have hp : p = a := by
      simp only [p, safeParameter, if_neg (not_lt.mpr hcount), if_neg hout]
    rw [not_or, not_or, not_lt, not_le, not_le] at hout
    obtain ⟨hlow, hhigh, hnewton⟩ := hout
    rw [hp]
    refine ⟨hlow, hhigh.le, ?_, fun _ => hhigh⟩
    obtain hzero | hle := hm.floor_eq
    · obtain heq | hlt := (hm.low_nonneg.trans hlow).eq_or_lt
      · exact .inr heq.symm
      · exact .inl (hzero.trans_lt hlt)
    · exact .inl (hle.trans_lt hnewton)

theorem ne_safeParameter (hm : t.Narrows floor m) (hcount : m.count ≤ t.limit) (p : ℝ)
    (ha : Leaves m a) : a ≠ t.safeParameter m p := by
  obtain ⟨hlow, -, -, hlt⟩ := hm.safeParameter_within hcount p
  obtain hbelow | ⟨hwide, hhigh⟩ := ha
  · exact (hbelow.trans_le hlow).ne
  · exact ((hlt hwide).trans_le hhigh).ne'

theorem failed (hm : t.Narrows floor m) {e : NotPositiveDefinite ℝ n}
    (he : (t.hessian.addToDiagonal a).cholesky = .error e) (hlow : m.low ≤ a)
    (hhigh : a ≤ m.high) :
    max m.low (a - e.rayleigh) < m.high ∧ t.Narrows floor { m with
      low := max m.low (a - e.rayleigh)
      newtonLength := -max m.low (a - e.rayleigh) } := by
  have hne : a ≠ m.high := by
    intro heq
    apply Symmetric.not_posDef_of_failed ((Cholesky.rows_spec _).2 e he)
    rw [heq]
    exact hm.posDef
  have hlt : max m.low (a - e.rayleigh) < m.high :=
    max_lt (hlow.trans_lt (hhigh.lt_of_ne hne)) (Symmetric.sub_rayleigh_lt hm.posDef he)
  have hbelow : t.Below (a - e.rayleigh) :=
    below_of_posDef fun b hb => (Symmetric.sub_rayleigh_lt hb he).le
  have hfloor := hm.floor_le.trans (le_max_left m.low (a - e.rayleigh))
  exact ⟨hlt, { hm with
    floor_le := hfloor
    floor_eq := .inr (hfloor.trans_eq (neg_neg _).symm)
    low := hm.low.max (hbelow.from hm.floor_nonneg) }⟩

end Narrows

section

variable (hr : 0 < t.radius) (hg : coords t.gradient ≠ 0)
include hr hg

theorem narrows_bracketMemory (hm : m.Carries t.hessian t.gradient) (hfloor : 0 ≤ floor)
    (hle : floor ≤ max m.low 0) (heq : floor = 0 ∨ floor ≤ -m.newtonLength)
    (hlow : t.BelowFrom floor m.low) : t.Narrows floor (t.bracketMemory m) := by
  have hratio : 0 < m.gradientNorm / t.radius := by
    rw [hm.gradientNorm]
    exact div_pos ((norm_nonneg _).lt_of_ne' fun hzero => hg (norm_eq_zero.mp hzero)) hr
  have habove : t.Above (m.gradientNorm / t.radius - t.hessian.gershgorin.1) := by
    rw [hm.gradientNorm]
    exact fun b hb => le_ratio_sub_circle hr hb
  have hcircle (b : ℝ) (s : Vector ℝ n) (hb : floor ≤ b)
      (hs : Solves t.hessian t.gradient b s) (hshort : Geometry.norm s ≤ t.radius) :
      m.gradientNorm / t.radius - t.hessian.gershgorin.2 ≤ b := by
    rw [hm.gradientNorm]
    exact hs.ratio_sub_circle_le (hfloor.trans hb) hr hshort
  have hlift : max m.low 0 ≤
      max (max m.low (m.gradientNorm / t.radius - t.hessian.gershgorin.2)) 0 :=
    max_le_max_right 0 (le_max_left _ _)
  rw [bracketMemory, circles_getD hm.circles]
  apply Flanks.widen
  refine ⟨hfloor, hle.trans hlift, heq, (hlow.max hcircle).max (below_zero.from hfloor), ?_, ?_⟩
  · dsimp only
    split
    · next h => exact habove.mono (h.trans (by norm_num))
    · exact habove
  · apply Symmetric.posDef_addToDiagonal
    dsimp only
    split
    · next h => linarith
    · linarith

theorem narrows_restartMemory (hm : m.Carries t.hessian t.gradient) :
    t.Narrows (max (-m.newtonLength) 0) (t.restartMemory m) := by
  have hfloor : 0 ≤ max (-m.newtonLength) 0 := le_max_right _ _
  have hself : t.BelowFrom (max (-m.newtonLength) 0) (max (-m.newtonLength) 0) :=
    fun b _ hb _ _ => hb
  have heq : max (-m.newtonLength) 0 = 0 ∨ max (-m.newtonLength) 0 ≤ -m.newtonLength := by
    obtain h | h := max_choice (-m.newtonLength) 0
    · exact .inr h.le
    · exact .inl h
  rw [restartMemory]
  dsimp only
  split
  · next hpos =>
    refine narrows_bracketMemory hr hg ?_ hfloor ?_ heq (hself.max fun b s hb hs hshort => ?_)
    · exact { hm with }
    · exact (le_max_left _ _).trans (le_max_left _ _)
    · have hless := mul_le_mul_of_nonneg_right (sub_le_sub_left hshort m.newtonLength)
        hm.slope_nonneg
      exact hless.trans (hm.slope hpos b s (hfloor.trans hb) hs)
  · refine narrows_bracketMemory hr hg ?_ hfloor (le_max_left _ _) heq hself
    exact { hm with }

end

theorem Narrows.cutByLast (hm : t.Narrows floor m) (hcarries : m.Carries t.hessian t.gradient)
    (hlink : m.Linked) {last : Factored ℝ n} (hlast : m.last = some last) :
    t.Narrows floor (t.cutByLast m last) := by
  obtain ⟨-, hs, hlength⟩ := hcarries.last last hlast
  have hbefore := hlink.solves hlast hs
  rw [StepTask.cutByLast]
  apply Flanks.widen
  split
  · next hcut =>
    rw [hlength] at hcut
    exact hm.toFlanks.raiseLow ((below_of_long (hbefore hcut.1) hcut.2).from hm.floor_nonneg)
  · split
    · next hcut =>
      rw [hlength] at hcut
      exact hm.toFlanks.cutHigh (above_of_short (hbefore hcut.1) hcut.2) (hbefore hcut.1).posDef
    · exact hm.toFlanks

/-- A step of Newton's method goes up from a step that is too long and down from one that is too
short, and stops short of every shift whose step is within the radius. -/
theorem hebden_spec (hr : 0 < t.radius) (hg : coords t.gradient ≠ 0) {l : Lower ℝ n}
    (hfactor : w.factor = some l)
    (hl : (t.hessian.addToDiagonal w.parameter).cholesky = .ok l)
    (hs : Solves t.hessian t.gradient w.parameter w.step)
    (hlength : w.length = Geometry.norm w.step) (hexcess : w.excess = w.length - t.radius) :
    ∃ v, t.Below v ∧ (w.excess < 0 → v < w.parameter) ∧ (0 < w.excess → w.parameter < v) ∧
      t.hebden w = (.shift, { w with parameter := v, memory := w.memory.raiseLow v }) := by
  have hv := Lower.solve_eq_ok (Symmetric.cholesky_positiveDiagonal hl) w.step
  have hlong := hs.norm_solve_pos hg hl hv
  have hpos : 0 < w.length := hlength ▸ hs.norm_pos hg
  have hrate : 0 < w.length / Geometry.norm (l.forward w.step) * (w.length / t.radius) :=
    mul_pos (div_pos hpos hlong) (div_pos hpos hr)
  refine ⟨w.parameter + w.excess / Geometry.norm (l.forward w.step) *
    (w.length / Geometry.norm (l.forward w.step)) * (w.length / t.radius), ?_, fun hneg => ?_,
    fun hmore => ?_, ?_⟩
  · rw [hexcess, hlength]
    exact fun b s _ hu hshort => hs.newton_le hu hl hv hlong hr hshort
  · rw [mul_assoc]
    linarith [mul_neg_of_neg_of_pos (div_neg_of_neg_of_pos hneg hlong) hrate]
  · rw [mul_assoc]
    linarith [mul_pos (div_pos hmore hlong) hrate]
  · simp only [hebden, hfactor, hv, if_pos hlong]

end StepTask

end LeastSquares
