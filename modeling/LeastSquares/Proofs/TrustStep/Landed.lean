import LeastSquares.Proofs.TrustStep.Banded
import LeastSquares.Proofs.TrustStep.Restarted

namespace LeastSquares

open Matrix

variable {n : Nat}

namespace StepTask

variable {t : StepTask ℝ n} {w : StepWork ℝ n}

theorem run_shift_inBand {s : Vector ℝ n} (hcount : w.memory.count < t.limit)
    (hgiven : w.memory.count < t.ceiling)
    (hinside : ¬(w.parameter < w.memory.low ∨ w.memory.high ≤ w.parameter ∨
      w.parameter ≤ -w.memory.newtonLength))
    (hs : Solves t.hessian t.gradient w.parameter s)
    (hband : t.InBand (Geometry.norm s - t.radius)) :
    (t.run .shift w).memory.count = w.memory.count + 1 ∧
      (t.run .shift w).parameter = w.parameter ∧ (t.run .shift w).length = Geometry.norm s ∧
      (t.run .shift w).special = w.special ∧ (t.run .shift w).stuck = w.stuck := by
  obtain ⟨l, hl⟩ := Symmetric.exists_cholesky_of_posDef hs.posDef
  obtain ⟨q, s', hstep, heq, -⟩ := Lower.newtonStep_spec hl t.gradient
  obtain rfl : s' = s := Solves.unique ⟨hs.posDef, heq⟩ hs
  have hsafe : t.safeParameter { w.memory with count := w.memory.count + 1 } w.parameter =
      w.parameter := by
    have hlimit : ¬t.limit < w.memory.count + 1 := by omega
    simp only [safeParameter, if_neg hlimit, if_neg hinside]
  have hceiling : ¬t.ceiling < w.memory.count + 1 := by omega
  have hshift : t.transition .shift w = (.solve, { w with
      memory := { w.memory with count := w.memory.count + 1 }
      factor := some l }) := by
    simp only [transition, shift, if_neg hceiling, hsafe, hl]
  have hsolve : t.transition .solve { w with
      memory := { w.memory with count := w.memory.count + 1 }
      factor := some l } = (.done, { w with
      memory := { w.memory with
        count := w.memory.count + 1
        last := some ⟨w.parameter, l, s', Geometry.norm s'⟩ }
      factor := some l
      energy := normSq q
      length := Geometry.norm s'
      step := s'
      excess := Geometry.norm s' - t.radius }) := by
    simp only [transition, solve, hstep]
    exact if_pos hband
  rw [run_next (by decide) hshift, run_next (by decide) hsolve, run, dif_pos rfl]
  exact ⟨rfl, rfl, rfl, rfl, rfl⟩

theorem Ended.landed (hr : 0 < t.radius) (hband : t.InBand 0) (hw : t.Ended w)
    (hlands : t.Lands w) :
    ((t.finish w).1.parameter = 0 ∧ Solves t.hessian t.gradient 0 w.step ∧
      w.length - t.radius ≤ t.longBy) ∨ t.InBand (w.length - t.radius) := by
  cases hspecial : w.special with
  | true =>
    right
    rw [(hw.special hspecial).2.norm_eq hr, sub_self]
    exact hband
  | false =>
    obtain hstretched | ⟨hzero, hlong⟩ | hin := hlands
    · rw [hspecial] at hstretched
      cases hstretched
    · left
      obtain ⟨-, hsolves, -⟩ := hw.plain hspecial
      refine ⟨?_, hzero ▸ hsolves, hlong⟩
      rw [hw.finish_step.2.2, hspecial, hzero]
      simp
    · exact .inr hin

end StepTask

variable {c : Config ℝ} {h : Symmetric ℝ n} {g d : Vector ℝ n} {m : StepMemory ℝ n} {radius : ℝ}

theorem coords_overEach_ne_zero (hd : ∀ i : Fin n, 0 < d[i]) (hg : coords g ≠ 0) :
    coords (overEach g d) ≠ 0 := by
  intro hzero
  apply hg
  rw [← mul_coords_overEach hd g, hzero, mul_zero]

theorem StepMemory.Serves.banded (hm : m.Serves c h g d) (hc : c.validate n = .ok ())
    (hlimit : c.hebdenIterationLimit < 2 ^ 30) (radius : ℝ) :
    (StepTask.ofModel h g d radius c).Banded
      (if m.isFresh then .freshStart else .restart) (.start m) := by
  refine ⟨(hm.fits hc hlimit).sustained (hm.carries hc hlimit) radius, ?_⟩
  cases m.isFresh with
  | true => exact rfl
  | false => exact rfl

theorem shortBy_nonpos (hc : c.validate n = .ok ()) (hr : 0 < radius) :
    (StepTask.ofModel h g d radius c).shortBy ≤ 0 := by
  obtain ⟨-, ⟨-, hmin, -⟩, -⟩ := Config.ranges_of_validate hc
  exact mul_nonpos_of_nonpos_of_nonneg hmin hr.le

/-- A call that has shifts left ends with the Newton step or with a step about as long as the
radius, and with one exactly as long where it stretched it. Up to the limit it never ends because
the length did not change. -/
theorem trustStep_banded (hc : c.validate n = .ok ()) (hlimit : c.hebdenIterationLimit < 2 ^ 30)
    (hd : ∀ i : Fin n, 0 < d[i]) (hg : coords g ≠ 0) (hm : m.Serves c h g d) (hr : 0 < radius) :
    let t := StepTask.ofModel h g d radius c
    let call := trustStep c h g d radius m
    (call.2.iterations < c.hebdenIterationLimit →
      (call.1.parameter = 0 ∧ h.matrix.PosDef ∧ h.matrix *ᵥ coords call.1.step = -coords g ∧
        call.1.length ≤ (1 + c.phiMax) * radius) ∨
      ((1 + c.phiMin) * radius ≤ call.1.length ∧
        call.1.length ≤ (1 + c.phiMax) * radius)) ∧
    (call.1.parameter < 0 → call.1.length = radius) ∧
    (∀ k w, t.after k (if m.isFresh then .freshStart else .restart) (.start m) = (.solve, w) →
      w.memory.count ≤ c.hebdenIterationLimit → (t.solve w).1 = .done →
      t.InBand (t.solve w).2.excess) := by
  intro t call
  let start := if m.isFresh then Phase.freshStart else .restart
  have hv : t.Valid := valid_ofModel hc hlimit hr
  have hshort : t.shortBy ≤ 0 := shortBy_nonpos hc hr
  have hg' : coords t.gradient ≠ 0 := coords_overEach_ne_zero hd hg
  have hcount : t.limit = c.hebdenIterationLimit := limit_ofModel hlimit h g d radius
  have hstart : t.Banded start (.start m) := hm.banded hc hlimit radius
  refine ⟨fun hbefore => ?_, fun hneg => ?_, fun k w hw hwithin hdone => ?_⟩
  · let w := t.run start (.start m)
    have hcall : call = t.finish w := rfl
    have hdone : t.Banded .done w :=
      t.run_invariant (StepTask.transition_banded hv hshort hg') hstart
    clear_value w
    have hended := hdone.holds
    have hleft : w.memory.count < t.limit := by
      rw [hcall, StepMemory.iterations, StepTask.count_finish] at hbefore
      omega
    obtain ⟨hstep, hlength, -⟩ := hended.finish_step
    rw [hcall, hstep, hlength]
    obtain ⟨hparameter, hsolves, hlong⟩ | ⟨hlow, hhigh⟩ :=
      hended.landed hr ⟨hshort, hv.longBy_nonneg⟩ (hdone.banding hleft)
    · have hdef := hsolves.unscaled_posDef hd
      have hequation := hsolves.unscaled_equation hd
      rw [zero_smul, add_zero] at hdef hequation
      change w.length - radius ≤ c.phiMax * radius at hlong
      exact .inl ⟨hparameter, hdef, hequation, by linarith⟩
    · change c.phiMin * radius ≤ w.length - radius at hlow
      change w.length - radius ≤ c.phiMax * radius at hhigh
      exact .inr ⟨by linarith, by linarith⟩
  · obtain ⟨_, _, _, -, hlength, hreaches, -⟩ := trustStep_stretched hc hlimit
      (hm.fits hc hlimit) hr hneg
    exact hlength.trans hreaches
  · have hafter := t.after_invariant t.Banded (StepTask.transition_banded hv hshort hg') k hstart
    rw [hw] at hafter
    exact StepTask.solve_inBand hv hshort hg' hafter (hcount ▸ hwithin) hdone

/-- The task of a parabola whose Newton step of length one is four times too long. -/
noncomputable def shortParabola : StepTask ℝ 1 :=
  .ofModel (.ofFn fun _ _ => 1) #v[1] #v[1] (1 / 4) Config.default

theorem shortParabola_solves {a v : ℝ} (ha : 0 < 1 + a) (hv : (1 + a) * v = -1) :
    Solves shortParabola.hessian shortParabola.gradient a #v[v] := by
  have hmatrix : shortParabola.hessian.matrix = 1 := parabola_scaled
  constructor
  · rw [Symmetric.posDef_iff]
    intro v hv
    rw [Symmetric.dotProduct_addToDiagonal, hmatrix, one_mulVec, ← one_add_mul]
    exact mul_pos ha (dotProduct_self_pos hv)
  · rw [Symmetric.matrix_addToDiagonal, hmatrix, add_mulVec, smul_mulVec, one_mulVec]
    funext i
    fin_cases i
    simp [shortParabola, StepTask.ofModel, coords, overEach]
    linarith

theorem shortParabola_gradient : Geometry.norm shortParabola.gradient = 1 := by
  rw [norm_eq, show coords shortParabola.gradient = _ from coords_overEach #v[1] #v[1], coords_one]
  simp

theorem shortParabola_gershgorin : shortParabola.hessian.gershgorin = (1, 1) := by
  have hget : shortParabola.hessian.get 0 0 = 1 := by
    rw [← Symmetric.matrix_apply, show shortParabola.hessian.matrix = 1 from parabola_scaled]
    rfl
  simp [Symmetric.gershgorin, Symmetric.circleRadius, leastOf, greatestOf, sumOver, hget,
    List.finRange_succ]

theorem shortParabola_bracketMemory {m : StepMemory ℝ 1} (hcircles : m.circles = none)
    (hgradient : m.gradientNorm = 1) (hlow : m.low ≤ 3) :
    shortParabola.bracketMemory m =
      { m with circles := some (1, 1), low := 3, high := 6001 / 1000 } := by
  have hratio : 1 / shortParabola.radius - 1 = 3 := by
    norm_num [shortParabola, StepTask.ofModel]
  have hthree : max (max m.low 3) 0 = 3 := by
    rw [max_eq_right hlow]
    norm_num
  have hpos : ¬(3 : ℝ) ≤ 0 := by norm_num
  rw [StepTask.bracketMemory, hcircles, hgradient]
  simp only [Option.getD_none, shortParabola_gershgorin, hratio, hthree, if_neg hpos]
  rw [StepMemory.widen, if_pos le_rfl]
  norm_num

theorem shortParabola_tryNewton {w : StepWork ℝ 1} (hw : w.memory.low ≤ 3) :
    ∃ w', shortParabola.tryNewton w = (.bracket, w') ∧ w'.memory.low ≤ 3 ∧
      w'.memory.newtonLength = 1 ∧ w'.memory.count = w.memory.count ∧
      w'.memory.circles = w.memory.circles ∧ w'.memory.gradientNorm = w.memory.gradientNorm ∧
      w'.memory.parameter = w.memory.parameter ∧ w'.memory.radius = w.memory.radius ∧
      w'.special = w.special ∧ w'.stuck = w.stuck := by
  have hradius : shortParabola.radius = |-(1 / 4)| := by
    norm_num [shortParabola, StepTask.ofModel]
  have hnewton := shortParabola_solves (a := 0) (v := -1) (by norm_num) (by norm_num)
  have hreaches := shortParabola_solves (a := 3) (v := -(1 / 4)) (by norm_num) (by norm_num)
  obtain ⟨l, hl⟩ := Symmetric.exists_cholesky_of_posDef hnewton.posDef
  obtain ⟨q, s, hstep, heq, -⟩ := Lower.newtonStep_spec hl shortParabola.gradient
  obtain rfl : s = #v[-1] := Solves.unique ⟨hnewton.posDef, heq⟩ hnewton
  have hslope := hnewton.slope_le hreaches hl
    (Lower.solve_eq_ok (Symmetric.cholesky_positiveDiagonal hl) _) (by norm_num)
  rw [norm_single (-(1 / 4)), ← hradius] at hslope
  rw [Symmetric.addToDiagonal_zero] at hl
  have hlong : ¬Geometry.norm #v[-1] - shortParabola.radius ≤ shortParabola.longBy := by
    rw [norm_single]
    norm_num [shortParabola, StepTask.ofModel, Config.default]
  refine ⟨_, StepTask.tryNewton_long hl (not_le.mpr (parabola_clear l hl)) hstep hlong,
    max_le hw hslope, ?_, rfl, rfl, rfl, rfl, rfl, rfl, rfl⟩
  rw [norm_single]
  norm_num

theorem shortParabola_guess :
    let m : StepMemory ℝ 1 := { StepMemory.new with parameter := 3, radius := 1 / 4 }
    ∃ w, shortParabola.run .freshStart (.start m) = shortParabola.run .shift w ∧
      w.memory.count = 0 ∧ w.memory.low = 3 ∧ w.memory.high = 6001 / 1000 ∧
      w.memory.newtonLength = 1 ∧ w.parameter = 3 ∧ w.special = false ∧ w.stuck = false := by
  intro m
  obtain ⟨w', htry, hlow, hlength, hcount, hcircles, hgradient, hparameter, hradius, hspecial,
    hstuck⟩ := shortParabola_tryNewton (w := (shortParabola.freshStart (.start m)).2)
      (by norm_num [StepTask.freshStart])
  let next := (shortParabola.bracket w').2
  have hbracket : next.memory = _ :=
    shortParabola_bracketMemory hcircles (hgradient.trans shortParabola_gradient) hlow
  have hguess : next.parameter = 3 := by
    change shortParabola.guess next.memory = 3
    rw [StepTask.guess, (congrArg StepMemory.radius hbracket).trans hradius,
      (congrArg StepMemory.parameter hbracket).trans hparameter]
    change (if (0 : ℝ) < 1 / 4 then |3| * (1 / 4) / (1 / 4) else 0) = 3
    norm_num
  have hlater : shortParabola.run .freshStart (.start m) =
      shortParabola.run .tryNewton (shortParabola.freshStart (.start m)).2 :=
    StepTask.run_next (by decide) rfl
  refine ⟨next, ?_, (congrArg StepMemory.count hbracket).trans hcount,
    congrArg StepMemory.low hbracket, congrArg StepMemory.high hbracket,
    (congrArg StepMemory.newtonLength hbracket).trans hlength, hguess, hspecial, hstuck⟩
  exact (hlater.trans (StepTask.run_next (by decide) htry)).trans
    (StepTask.run_next (by decide) rfl)

theorem shortParabola_run :
    let m : StepMemory ℝ 1 := { StepMemory.new with parameter := 3, radius := 1 / 4 }
    let w := shortParabola.run .freshStart (.start m)
    w.memory.count = 1 ∧ w.parameter = 3 ∧ w.length = 1 / 4 ∧ w.special = false ∧
      w.stuck = false := by
  intro m w
  have hlimit : shortParabola.limit = 50 := limit_ofModel default_hebdenLimit _ _ _ _
  have hceiling : shortParabola.ceiling = 2 * 50 := ceiling_ofModel default_hebdenLimit _ _ _ _
  have hreaches := shortParabola_solves (a := 3) (v := -(1 / 4)) (by norm_num) (by norm_num)
  obtain ⟨next, hw, hcount, hlow, hhigh, hlength, hguess, hspecial, hstuck⟩ := shortParabola_guess
  have hband : shortParabola.InBand (Geometry.norm #v[-(1 / 4)] - shortParabola.radius) := by
    rw [norm_single]
    norm_num [shortParabola, StepTask.ofModel, Config.default, StepTask.InBand]
  obtain ⟨hshifts, hshift, hnorm, hspecial', hstuck'⟩ := StepTask.run_shift_inBand (w := next)
    (by omega) (by omega) (by norm_num [hguess, hlow, hhigh, hlength]) (hguess ▸ hreaches) hband
  rw [show w = _ from hw]
  refine ⟨?_, hshift.trans hguess, hnorm.trans ?_, hspecial'.trans hspecial, hstuck'.trans hstuck⟩
  · rw [hshifts, hcount, zero_add]
  · rw [norm_single]
    norm_num

theorem shortParabola_call :
    let m : StepMemory ℝ 1 := { StepMemory.new with parameter := 3, radius := 1 / 4 }
    let call := trustStep Config.default (.ofFn fun _ _ => 1) #v[1] #v[1] (1 / 4) m
    call.2.iterations = 1 ∧ call.1.parameter = 3 ∧ call.1.length = 1 / 4 := by
  intro m call
  let w := shortParabola.run .freshStart (.start m)
  have hcall : call = shortParabola.finish w := rfl
  have hrun : w.memory.count = 1 ∧ w.parameter = 3 ∧ w.length = 1 / 4 ∧ w.special = false ∧
      w.stuck = false := shortParabola_run
  clear_value w
  obtain ⟨hcount, hparameter, hlength, hspecial, hstuck⟩ := hrun
  have hiterations : call.2.iterations = 1 := by
    rw [hcall, StepMemory.iterations, StepTask.count_finish, hcount]
    rfl
  rw [hcall] at hiterations ⊢
  rw [StepTask.finish, if_neg (by simp [hstuck])] at hiterations ⊢
  exact ⟨hiterations, by simp [hspecial, hparameter], hlength⟩

/-- A shift can reach the radius exactly too, with no stretch. -/
theorem trustStep_banded_reached :
    let m : StepMemory ℝ 1 := { StepMemory.new with parameter := 3, radius := 1 / 4 }
    let call := trustStep Config.default (.ofFn fun _ _ => 1) #v[1] #v[1] (1 / 4) m
    m.Serves Config.default (.ofFn fun _ _ => 1) #v[1] #v[1] ∧
      call.2.iterations < (Config.default : Config ℝ).hebdenIterationLimit ∧
      call.1.parameter ≠ 0 ∧ ¬(call.1.length = 1 / 4 ↔ call.1.parameter < 0) := by
  intro m call
  obtain ⟨hiterations, hparameter, hlength⟩ := shortParabola_call
  refine ⟨.fresh rfl, ?_, ?_, ?_⟩
  · rw [hiterations]
    norm_num [Config.default]
  · rw [hparameter]
    norm_num
  · rw [hparameter, hlength]
    norm_num

theorem trustStep_banded_parabola :
    let m : StepMemory ℝ 1 := { StepMemory.new with parameter := 3, radius := 1 / 4 }
    let call := trustStep Config.default (.ofFn fun _ _ => 1) #v[1] #v[1] (1 / 4) m
    ((1 + Config.default.phiMin) * (1 / 4) ≤ call.1.length ∧
      call.1.length ≤ (1 + Config.default.phiMax) * (1 / 4)) ∧
    ∀ k w, shortParabola.after k .freshStart (.start m) = (.solve, w) → w.memory.count ≤ 50 →
      (shortParabola.solve w).1 = .done →
      shortParabola.InBand (shortParabola.solve w).2.excess := by
  intro m call
  have hg : coords #v[(1 : ℝ)] ≠ 0 := coords_one ▸ one_ne_zero
  have hr : (0 : ℝ) < 1 / 4 := by norm_num
  obtain ⟨hiterations, hparameter, -⟩ := shortParabola_call
  obtain ⟨hlands, -, hexits⟩ := trustStep_banded (Config.validate_default 1) default_hebdenLimit
    one_scale_pos hg (.fresh rfl : m.Serves Config.default (.ofFn fun _ _ => 1) #v[1] #v[1]) hr
  refine ⟨?_, hexits⟩
  obtain ⟨hzero, -⟩ | hband := hlands (by rw [hiterations]; norm_num [Config.default])
  · rw [hparameter] at hzero
    norm_num at hzero
  · exact hband

end LeastSquares
