import LeastSquares.Proofs.TrustStep.Narrowed

namespace LeastSquares

open Matrix

variable {n : Nat}

namespace StepTask

/-- A step is as long as the radius, up to the tolerance, if it is longer by this. -/
def InBand (t : StepTask ℝ n) (excess : ℝ) : Prop := t.shortBy ≤ excess ∧ excess ≤ t.longBy

/-- The excess that the next one is compared with is nothing, or that of a shift with `P`. -/
def Compares (t : StepTask ℝ n) (w : StepWork ℝ n) (P : ℝ → Prop) : Prop :=
  w.lastExcess = 0 ∨ ∃ a s, Solves t.hessian t.gradient a s ∧
    w.lastExcess = Geometry.norm s - t.radius ∧ P a

/-- The parameter of a step that is too short is inside the bracket. -/
structure Inside (t : StepTask ℝ n) (floor : ℝ) (w : StepWork ℝ n) : Prop where
  narrows : t.Narrows floor w.memory
  floor_lt : floor < w.parameter
  low_lt : w.memory.low < w.parameter
  le_high : w.parameter ≤ w.memory.high

def Lands (t : StepTask ℝ n) (w : StepWork ℝ n) : Prop :=
  w.special = true ∨ w.parameter = 0 ∧ w.length - t.radius ≤ t.longBy ∨
    t.InBand (w.length - t.radius)

/-- What holds before each phase of the bracket, and of the excess that the next one is compared
with. Past the limit the parameter is not taken from the bracket. -/
def Banding (t : StepTask ℝ n) : Phase → StepWork ℝ n → Prop
  | .freshStart, w | .restart, w => w.lastExcess = 0
  | .tryNewton, w => w.lastExcess = 0 ∧ w.memory.low = 0
  | .bracket, w => w.lastExcess = 0 ∧ t.Below w.memory.low
  | .shift, w => ∃ floor, t.Narrows floor w.memory ∧ t.Compares w (Leaves w.memory)
  | .solve, w => w.memory.count ≤ t.limit → ∃ floor, t.Narrows floor w.memory ∧
      w.parameter ≤ w.memory.high ∧ (floor < w.parameter ∨ w.parameter = 0) ∧
      t.Compares w (· ≠ w.parameter)
  | .checkSpecial, w => w.lastExcess = w.excess ∧
      (w.memory.count ≤ t.limit → ∃ floor, t.Inside floor w)
  | .update, w => w.lastExcess = w.excess ∧ (w.memory.count ≤ t.limit → ∃ floor,
      w.excess < 0 ∧ t.Inside floor w ∨ 0 < w.excess ∧ t.Narrows floor w.memory)
  | .done, w => w.memory.count < t.limit → t.Lands w

structure Banded (t : StepTask ℝ n) (phase : Phase) (w : StepWork ℝ n) : Prop
    extends Sustained t phase w where
  banding : t.Banding phase w

variable {t : StepTask ℝ n} {m : StepMemory ℝ n} {w w' : StepWork ℝ n} {phase : Phase}

theorem Compares.imp {P Q : ℝ → Prop} (hw : t.Compares w P) (h : ∀ a, P a → Q a)
    (heq : w'.lastExcess = w.lastExcess) : t.Compares w' Q := by
  rw [Compares, heq]
  obtain hzero | ⟨a, s, hs, hexcess, ha⟩ := hw
  · exact .inl hzero
  · exact .inr ⟨a, s, hs, hexcess, h a ha⟩

theorem solve_exits (t : StepTask ℝ n) (w : StepWork ℝ n) :
    ((t.solve w).1 = .done →
      t.InBand (t.solve w).2.excess ∨ (t.solve w).2.excess = w.lastExcess) ∧
    ((t.solve w).1 = .checkSpecial ∨ (t.solve w).1 = .update →
      (t.solve w).2.lastExcess = (t.solve w).2.excess ∧ ¬t.InBand (t.solve w).2.excess) ∧
    ((t.solve w).1 = .update → 0 ≤ (t.solve w).2.excess) := by
  rw [solve]
  split
  · simp
  · split
    · simp
    · dsimp only
      split
      · next hband => exact ⟨fun _ => .inl hband, by simp, by simp⟩
      · next hband =>
        split
        · next hsame => exact ⟨fun _ => .inr (beq_iff.mp hsame), by simp, by simp⟩
        · split
          · exact ⟨by simp, fun _ => ⟨rfl, hband⟩, by simp⟩
          · next hlong => exact ⟨by simp, fun _ => ⟨rfl, hband⟩, fun _ => not_lt.mp hlong⟩

theorem tryNewton_banding (hw : t.Banding .tryNewton w) :
    t.Banding (t.tryNewton w).1 (t.tryNewton w).2 := by
  obtain ⟨hlast, hlow⟩ := hw
  have hbelow : t.Below w.memory.low := hlow ▸ below_zero
  obtain ⟨e, he, heq⟩ | ⟨l, hl, ⟨-, heq⟩ | ⟨-, s, energy, heqn, -, ⟨hfits, heq⟩ | ⟨-, heq⟩⟩⟩ :=
    t.tryNewton_cases w
  · rw [heq]
    refine ⟨hlast, below_of_posDef fun b hb => ?_⟩
    rw [← t.hessian.addToDiagonal_zero] at he
    have hlt := Symmetric.sub_rayleigh_lt hb he
    linarith
  · rw [heq]
    exact ⟨hlast, hbelow⟩
  · rw [heq]
    exact fun _ => .inr (.inl ⟨rfl, hfits⟩)
  · have hs := Symmetric.solves_of_cholesky hl heqn
    have hv := Lower.solve_eq_ok (Symmetric.cholesky_positiveDiagonal hl) s
    have hslope : 0 ≤ Geometry.norm s / square (Geometry.norm (l.forward s)) :=
      div_nonneg (norm_nonneg s) (mul_self_nonneg _)
    rw [← t.hessian.addToDiagonal_zero] at hl
    rw [heq]
    refine ⟨hlast, hbelow.max fun b u hb hu hinside => ?_⟩
    exact (mul_le_mul_of_nonneg_right (sub_le_sub_left hinside _) hslope).trans
      (hs.slope_le hu hl hv hb)

theorem shift_banding (hv : t.Valid) (hw : t.Banded .shift w) :
    t.Banding (t.shift w).1 (t.shift w).2 := by
  obtain ⟨floor, hm, hcompares⟩ := hw.banding
  obtain ⟨-, hbracketed, hcount⟩ := hw.holds
  have hm' : t.Narrows floor { w.memory with count := w.memory.count + 1 } := { hm with }
  obtain ⟨hgiven, -⟩ | ⟨-, a, rfl, ⟨l, -, heq⟩ | ⟨e, he, heq⟩⟩ := t.shift_cases w
  · exact absurd hgiven (not_ceiling_lt hv hcount)
  · rw [heq]
    intro hwithin
    obtain ⟨-, hhigh, hfloor, -⟩ := hm'.safeParameter_within hwithin w.parameter
    exact ⟨floor, hm', hhigh, hfloor,
      hcompares.imp (fun a ha => hm'.ne_safeParameter hwithin _ ha) rfl⟩
  · have hwithin := count_le_of_failed (hbracketed.withCount _) he
    obtain ⟨hlow, hhigh, -⟩ := hm'.safeParameter_within hwithin w.parameter
    obtain ⟨hlt, hnext⟩ := hm'.failed he hlow hhigh
    rw [heq, StepMemory.widen, if_neg (not_le.mpr hlt)]
    refine ⟨floor, hnext, hcompares.imp (fun a ha => ?_) rfl⟩
    obtain hbelow | ⟨-, habove⟩ := ha
    · exact .inl (hbelow.trans_le (le_max_left _ _))
    · exact .inr ⟨hlt, habove⟩

section

variable (hv : t.Valid) (hshort : t.shortBy ≤ 0) (hg : coords t.gradient ≠ 0)
include hv

theorem restart_banding (hg : coords t.gradient ≠ 0) (hw : t.Banded .restart w) :
    t.Banding (t.restart w).1 (t.restart w).2 := by
  have hlast : w.lastExcess = 0 := hw.banding
  obtain ⟨hm, hlink⟩ := hw.carrying
  have hm' : StepMemory.Carries { w.memory with count := 0 } t.hessian t.gradient := { hm with }
  have hcarries := carries_restartMemory hm'
  have hnarrows := narrows_restartMemory hv.radius_pos hg hm'
  obtain ⟨s, -, -, hfits, heq⟩ | ⟨-, ⟨last, hkept, heq⟩ | heq⟩ := t.restart_cases w
  · rw [heq]
    exact fun _ => .inr (.inl ⟨rfl, hfits⟩)
  · obtain ⟨hl, hsolves, hlength⟩ := hcarries.last last hkept
    have hcut := hnarrows.cutByLast hcarries (linked_restartMemory hlink) hkept
    rw [heq]
    obtain ⟨v, hbelow, -, -, hnext⟩ := hebden_spec (t := t)
      (w := { w with
        memory := t.cutByLast (t.restartMemory { w.memory with count := 0 }) last
        parameter := last.parameter
        length := last.length
        excess := last.length - t.radius
        step := last.step
        factor := some last.factor }) hv.radius_pos hg rfl hl hsolves hlength rfl
    rw [hnext]
    exact ⟨_, hcut.raiseLow (hbelow.from hcut.floor_nonneg), .inl hlast⟩
  · rw [heq]
    exact ⟨_, hnarrows, .inl hlast⟩

include hshort hg

theorem solve_inBand (hw : t.Banded .solve w) (hcount : w.memory.count ≤ t.limit)
    (hdone : (t.solve w).1 = .done) : t.InBand (t.solve w).2.excess := by
  obtain ⟨-, -, -, -, hcompares⟩ := hw.banding hcount
  obtain ⟨l, hfactor, hl⟩ := Shifted.factor hw.holds
  obtain ⟨w', hnext, hs, -, hparameter, -⟩ := solve_spec hfactor hl
  have hsame : (t.solve w).2 = w' := by
    obtain h | ⟨h, -⟩ | h := hnext <;> rw [h]
  obtain hband | hequal := (t.solve_exits w).1 hdone
  · exact hband
  rw [hsame] at hequal ⊢
  obtain hzero | ⟨a, s, hsolves, hexcess, hne⟩ := hcompares
  · rw [hequal, hzero]
    exact ⟨hshort, hv.longBy_nonneg⟩
  · exfalso
    apply hne
    rw [← hparameter]
    apply hsolves.eq_of_norm_eq hs.solves hg
    rw [hexcess, hs.excess_eq, hs.length_eq] at hequal
    linarith

theorem solve_banding (hw : t.Banded .solve w) : t.Banding (t.solve w).1 (t.solve w).2 := by
  obtain ⟨l, hfactor, hl⟩ := Shifted.factor hw.holds
  obtain ⟨w', hnext, hs, hmemory, hparameter, -⟩ := solve_spec hfactor hl
  have hin := solve_inBand hv hshort hg hw
  have hexits := t.solve_exits w
  have hholds := solve_holds hw.holds
  have hcount : w'.memory.count = w.memory.count := by rw [hmemory]
  obtain hnext | ⟨hnext, hneg⟩ | hnext := hnext <;> rw [hnext] at hin hexits hholds ⊢
  · intro hbefore
    rw [hcount] at hbefore
    right
    right
    rw [← hs.excess_eq]
    exact hin hbefore.le rfl
  · obtain ⟨hkept, -⟩ := hexits.2.1 (.inl rfl)
    refine ⟨hkept, fun hwithin => ?_⟩
    rw [hcount] at hwithin
    obtain ⟨floor, hm, hhigh, hfloor, -⟩ := hw.banding hwithin
    have hm' : t.Narrows floor w'.memory := by
      rw [hmemory]
      exact { hm with }
    have hlt : floor < w'.parameter := by
      obtain hlt | hzero := hfloor
      · rwa [hparameter]
      · have hpos := hs.parameter_pos hholds.1 hneg
        exact absurd (hparameter.trans hzero) hpos.ne'
    refine ⟨floor, hm', hlt, hm'.low.lt_of_short hs.solves (hs.norm_lt hneg) hlt, ?_⟩
    rw [hparameter, hmemory]
    exact hhigh
  · obtain ⟨hkept, hout⟩ := hexits.2.1 (.inr rfl)
    refine ⟨hkept, fun hwithin => ?_⟩
    rw [hcount] at hwithin
    obtain ⟨floor, hm, -⟩ := hw.banding hwithin
    refine ⟨floor, .inr ⟨(hexits.2.2 rfl).lt_of_ne' fun hzero => hout ?_, ?_⟩⟩
    · dsimp only
      rw [hzero]
      exact ⟨hshort, hv.longBy_nonneg⟩
    · rw [hmemory]
      exact { hm with }

end

theorem checkSpecial_banding (hw : t.Banded .checkSpecial w) :
    t.Banding (t.checkSpecial w).1 (t.checkSpecial w).2 := by
  obtain ⟨hshifted, hs, hneg⟩ := hw.holds
  obtain ⟨hlast, hinside⟩ := hw.banding
  obtain ⟨l, hfactor, hl⟩ := hshifted.factor
  obtain ⟨w', hnext, -, hspecial, -⟩ | hnext | ⟨v, hbound, hnext⟩ :=
    checkSpecial_spec hfactor hl hs hneg <;> rw [hnext]
  · exact fun _ => .inl hspecial
  · refine ⟨hlast, fun hcount => ?_⟩
    obtain ⟨floor, hinside⟩ := hinside hcount
    exact ⟨floor, .inl ⟨hneg, hinside⟩⟩
  · refine ⟨hlast, fun hcount => ?_⟩
    obtain ⟨floor, hinside⟩ := hinside hcount
    have hbelow := (below_of_posDef hbound).from hinside.narrows.floor_nonneg
    have hlt := hbelow.lt_of_short hs.solves (hs.norm_lt hneg) hinside.floor_lt
    exact ⟨floor, .inl ⟨hneg, hinside.narrows.raiseLow hbelow, hinside.floor_lt,
      max_lt hinside.low_lt hlt, hinside.le_high⟩⟩

/-- The next parameter is on the other side of the last one, or beyond what the last one leaves
of the bracket. -/
theorem update_banding (hv : t.Valid) (hg : coords t.gradient ≠ 0) (hw : t.Banded .update w) :
    t.Banding (t.update w).1 (t.update w).2 := by
  obtain ⟨hshifted, hs⟩ := hw.holds
  obtain ⟨hlast, hinside⟩ := hw.banding
  obtain ⟨hcarries, -⟩ := hw.carrying
  obtain ⟨l, hfactor, hl⟩ := hshifted.factor
  have hgradient : w.memory.gradientNorm ≠ 0 := by
    rw [hcarries.gradientNorm]
    exact fun hzero => hg (norm_eq_zero.mp hzero)
  obtain ⟨v, hbelow, hdown, hup, hnext⟩ := hebden_spec (t := t)
    (w := { w with memory := updateMemory w }) hv.radius_pos hg hfactor hl hs.solves hs.length_eq
    hs.excess_eq
  rw [update]
  split
  · next hlimit => exact fun hbefore => absurd hlimit (not_le.mpr hbefore)
  · next hlimit =>
    rw [if_neg (by simpa [beq_iff] using hgradient), hnext]
    have hkept : w.lastExcess = Geometry.norm w.step - t.radius := by
      rw [hlast, hs.excess_eq, hs.length_eq]
    -- The shift of a short step becomes the upper end; that of a long one is below what comes next.
    obtain ⟨floor, ⟨hneg, hinside⟩ | ⟨hpos, hm⟩⟩ := hinside (not_le.mp hlimit).le
    · have hmemory : updateMemory w =
          { w.memory with high := min w.memory.high w.parameter } := if_pos hneg
      have hcut := hinside.narrows.cutHigh (above_of_short hs.solves (hs.norm_lt hneg))
        hs.solves.posDef hinside.floor_lt
      rw [hmemory]
      refine ⟨floor, hcut.raiseLow (hbelow.from hcut.floor_nonneg),
        .inr ⟨w.parameter, w.step, hs.solves, hkept, .inr ⟨?_, min_le_right _ _⟩⟩⟩
      have hlow := max_lt hinside.low_lt (hdown hneg)
      exact lt_min (hlow.trans_le hinside.le_high) hlow
    · have hmemory : updateMemory w = w.memory := if_neg (not_lt.mpr hpos.le)
      rw [hmemory]
      exact ⟨floor, hm.raiseLow (hbelow.from hm.floor_nonneg),
        .inr ⟨w.parameter, w.step, hs.solves, hkept, .inl ((hup hpos).trans_le (le_max_right _ _))⟩⟩

theorem transition_banded (hv : t.Valid) (hshort : t.shortBy ≤ 0) (hg : coords t.gradient ≠ 0)
    (hw : t.Banded phase w) : t.Banded (t.transition phase w).1 (t.transition phase w).2 := by
  refine ⟨transition_sustained hv hw.toSustained, ?_⟩
  cases phase with
  | freshStart => exact ⟨hw.banding, rfl⟩
  | tryNewton => exact tryNewton_banding hw.banding
  | bracket =>
    obtain ⟨hlast, hbelow⟩ := hw.banding
    exact ⟨0, narrows_bracketMemory hv.radius_pos hg hw.carrying le_rfl (le_max_right _ _)
      (.inl rfl) (hbelow.from le_rfl), .inl hlast⟩
  | restart => exact restart_banding hv hg hw
  | shift => exact shift_banding hv hw
  | solve => exact solve_banding hv hshort hg hw
  | checkSpecial => exact checkSpecial_banding hw
  | update => exact update_banding hv hg hw
  | done => exact hw.banding

end StepTask

end LeastSquares
