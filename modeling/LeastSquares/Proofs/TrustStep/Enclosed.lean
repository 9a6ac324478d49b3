import LeastSquares.Proofs.TrustStep.Direct
import LeastSquares.Proofs.TrustStep.Optimal
import LeastSquares.Proofs.TrustStep.Sound

namespace LeastSquares

open Matrix

variable {n : Nat}

namespace StepTask

variable (t : StepTask ℝ n)

/-- What a call has come to before it has a bracket of its own. A fresh one is at the phase
`bracket` then, and a restarted one is through with that too. A Newton step that is not too
long ends either. -/
noncomputable def opened (m : StepMemory ℝ n) : Phase × StepWork ℝ n :=
  if m.isFresh then t.tryNewton (t.freshStart (.start m)).2 else t.restart (.start m)

/-- The states of a call from the first that has a bracket to the last. -/
inductive Searches (m : StepMemory ℝ n) : Phase → StepWork ℝ n → Prop
  | bracket {w} : t.opened m = (.bracket, w) → Searches m (t.bracket w).1 (t.bracket w).2
  | restart {w} : t.opened m = (.shift, w) → Searches m .shift w
  | next {phase w} : Searches m phase w → phase ≠ .done →
      Searches m (t.transition phase w).1 (t.transition phase w).2

/-- The step of a shift which the memory has kept. -/
structure Tried (w : StepWork ℝ n) : Prop where
  nonneg : 0 ≤ w.parameter
  factor : ∃ l, w.factor = some l ∧ (t.hessian.addToDiagonal w.parameter).cholesky = .ok l
  stepped : t.Stepped w
  kept : ∀ f, w.memory.last = some f → f.parameter = w.parameter

/-- What holds before each phase that makes the bracket or makes it smaller. -/
def Tracks : Phase → StepWork ℝ n → Prop
  | .bracket, w => w.memory.Sound t.hessian t.gradient ∧ t.Below w.memory.low
  | .shift, w => t.Encloses w.memory
  | .solve, w => t.Encloses w.memory ∧ 0 ≤ w.parameter ∧
      ∃ l, w.factor = some l ∧ (t.hessian.addToDiagonal w.parameter).cholesky = .ok l
  | .checkSpecial, w => t.Encloses w.memory ∧ t.Tried w ∧ w.excess < 0
  | .update, w => t.Encloses w.memory ∧ t.Tried w
  | .done, w => w.memory.Sound t.hessian t.gradient ∧ (w.stuck = true ∨ w.parameter = 0 ∨
      ∀ f, w.memory.last = some f → f.parameter = |w.parameter|)
  | .freshStart, _ | .tryNewton, _ | .restart, _ => False

variable {t} {m : StepMemory ℝ n} {w : StepWork ℝ n}

theorem Tried.tracks_done (hw : t.Tried w) (hm : t.Encloses w.memory) : t.Tracks .done w := by
  refine ⟨hm.sound, .inr (.inr fun f hf => ?_)⟩
  rw [abs_of_nonneg hw.nonneg]
  exact hw.kept f hf

section

variable (hr : 0 < t.radius)
include hr

theorem encloses_hebden (hm : t.Encloses w.memory) {l : Lower ℝ n} (hfactor : w.factor = some l)
    (hl : (t.hessian.addToDiagonal w.parameter).cholesky = .ok l)
    (hs : Solves t.hessian t.gradient w.parameter w.step)
    (hlength : w.length = Geometry.norm w.step) (hexcess : w.excess = w.length - t.radius) :
    t.Encloses (t.hebden w).2.memory := by
  unfold hebden
  rw [hfactor]
  dsimp only
  split
  · exact hm
  · next v hv =>
    split
    · next hlong =>
      apply hm.raiseLow
      rw [hexcess, hlength]
      exact fun b s _ hu hshort => hs.newton_le hu hl hv hlong hr hshort
    · exact hm

theorem encloses_bracket (hw : t.Tracks .bracket w) : t.Encloses (t.bracket w).2.memory :=
  encloses_bracketMemory hr hw.1 hw.2

end

theorem shift_tracks (hm : t.Tracks .shift w) :
    t.Encloses (t.shift w).2.memory ∧ t.Tracks (t.shift w).1 (t.shift w).2 := by
  have hm' := Encloses.withCount hm (w.memory.count + 1)
  obtain ⟨-, heq⟩ | ⟨-, a, ha, ⟨l, hl, heq⟩ | ⟨e, he, heq⟩⟩ := t.shift_cases w
  · rw [heq]
    exact ⟨hm', hm'.sound, .inl rfl⟩
  · rw [heq]
    exact ⟨hm', hm', ha ▸ hm'.safeParameter_nonneg _, l, rfl, hl⟩
  · have hle : w.memory.low ≤ a := ha ▸ hm'.le_safeParameter w.parameter
    -- The old lower bound is below the failed shift, which is below all that do not fail.
    have hbound (b : ℝ) (hb : (t.hessian.addToDiagonal b).matrix.PosDef) :
        max w.memory.low (a - e.rayleigh) ≤ b := by
      have hfailed := (Symmetric.sub_rayleigh_lt hb he).le
      have hnonpos := rayleigh_nonpos he
      exact max_le (hle.trans (by linarith)) hfailed
    have hnext : t.Encloses { w.memory with
        count := w.memory.count + 1
        low := max w.memory.low (a - e.rayleigh)
        newtonLength := -max w.memory.low (a - e.rayleigh) } := by
      have hlow := hm.low_nonneg.trans (le_max_left w.memory.low (a - e.rayleigh))
      refine ⟨{ hm'.sound with convex := ?_, slope := ?_ }, hlow, hm.high_nonneg,
        below_of_posDef hbound, hm.high⟩
      · intro b _ hb
        rw [neg_neg]
        exact hbound b hb
      · intro hpos
        exact absurd (neg_pos.mp hpos) (not_lt.mpr hlow)
    rw [heq]
    exact ⟨hnext.widen, hnext.widen⟩

theorem solve_tracks (hw : t.Tracks .solve w) :
    t.Encloses (t.solve w).2.memory ∧ t.Tracks (t.solve w).1 (t.solve w).2 := by
  obtain ⟨hm, hnonneg, l, hfactor, hl⟩ := hw
  obtain ⟨w', hnext, hs, hmemory, hparameter, hfactor', -, -⟩ := solve_spec hfactor hl
  have hm' : t.Encloses w'.memory := by
    rw [hmemory]
    exact hm.withLast hl (hparameter ▸ hs.solves) hs.length_eq
  have hw' : t.Tried w' := by
    refine ⟨hparameter ▸ hnonneg, ⟨l, hfactor', hparameter ▸ hl⟩, hs, fun f hf => ?_⟩
    rw [hmemory] at hf
    obtain rfl := Option.some.inj hf
    exact hparameter.symm
  rcases hnext with hnext | ⟨hnext, hshort⟩ | hnext <;> rw [hnext]
  · exact ⟨hm', hw'.tracks_done hm'⟩
  · exact ⟨hm', hm', hw', hshort⟩
  · exact ⟨hm', hm', hw'⟩

theorem checkSpecial_tracks (hw : t.Tracks .checkSpecial w) :
    t.Encloses (t.checkSpecial w).2.memory ∧
      t.Tracks (t.checkSpecial w).1 (t.checkSpecial w).2 := by
  obtain ⟨hm, hw, hshort⟩ := hw
  obtain ⟨l, hfactor, hl⟩ := hw.factor
  rcases checkSpecial_spec hfactor hl hw.stepped hshort with
    ⟨w', hnext, -, -, -, hparameter, hmemory⟩ | hnext | ⟨v, hv, hnext⟩ <;> rw [hnext]
  · have hm' : t.Encloses w'.memory := hmemory ▸ hm
    refine ⟨hm', hm'.sound, .inr (.inr fun f hf => ?_)⟩
    rw [hparameter, abs_of_nonneg hw.nonneg]
    exact hw.kept f (hmemory ▸ hf)
  · exact ⟨hm, hm, hw⟩
  · have hm' := hm.raiseLow (below_of_posDef hv)
    have hs := hw.stepped
    exact ⟨hm', hm', hw.nonneg, hw.factor, ⟨hs.solves, hs.length_eq, hs.energy_eq, hs.excess_eq⟩,
      hw.kept⟩

theorem update_tracks (hr : 0 < t.radius) (hw : t.Tracks .update w) :
    t.Encloses (t.update w).2.memory ∧ t.Tracks (t.update w).1 (t.update w).2 := by
  obtain ⟨hm, hw⟩ := hw
  have hs := hw.stepped
  have hm' : t.Encloses (updateMemory w) := by
    unfold updateMemory
    split
    · next hshort => exact hm.cutHigh hw.nonneg (above_of_short hs.solves (hs.norm_lt hshort))
    · exact hm
  obtain ⟨-, heq⟩ | ⟨-, heq | heq⟩ := t.update_cases w
  · rw [heq]
    exact ⟨hm, hw.tracks_done hm⟩
  · rw [heq]
    exact ⟨hm', hm'⟩
  · obtain ⟨l, hfactor, hl⟩ := hw.factor
    have hnext : t.Encloses (t.hebden { w with memory := updateMemory w }).2.memory :=
      encloses_hebden hr hm' hfactor hl hs.solves hs.length_eq hs.excess_eq
    rw [heq, (t.hebden_next _).1]
    exact ⟨hnext, hnext⟩

theorem transition_tracks (hr : 0 < t.radius) {phase : Phase} (hw : t.Tracks phase w)
    (h : phase ≠ .done) : t.Encloses (t.transition phase w).2.memory ∧
      t.Tracks (t.transition phase w).1 (t.transition phase w).2 := by
  cases phase with
  | freshStart | tryNewton | restart => exact hw.elim
  | bracket => exact ⟨encloses_bracket hr hw, encloses_bracket hr hw⟩
  | shift => exact shift_tracks hw
  | solve => exact solve_tracks hw
  | checkSpecial => exact checkSpecial_tracks hw
  | update => exact update_tracks hr hw
  | done => exact absurd rfl h

theorem run_tracks (hr : 0 < t.radius) (phase : Phase) (hw : t.Tracks phase w) :
    t.Tracks .done (t.run phase w) ∧ (phase ≠ .done → t.Encloses (t.run phase w).memory) := by
  induction phase, w using StepTask.run.induct t with
  | case1 w =>
    rw [run, dif_pos rfl]
    exact ⟨hw, fun h => absurd rfl h⟩
  | case2 phase w h ih =>
    obtain ⟨hencloses, htracks⟩ := transition_tracks hr hw h
    obtain ⟨hdone, hlater⟩ := ih htracks
    rw [run, dif_neg h]
    refine ⟨hdone, fun _ => ?_⟩
    by_cases hlast : (t.transition phase w).1 = .done
    · rw [run, dif_pos hlast]
      exact hencloses
    · exact hlater hlast

theorem freshStart_sound : (t.freshStart w).2.memory.Sound t.hessian t.gradient where
  circles := nofun
  gradientNorm := rfl
  convex b hb _ := by
    change -0 ≤ b
    rwa [neg_zero]
  slope_nonneg := le_refl 0
  slope hpos := absurd hpos (lt_irrefl 0)
  last := nofun

theorem tryNewton_tracks (hclear : t.hessian.Clear) (hlargest : t.largestEntry = t.hessian.maxAbs)
    (hm : w.memory.Sound t.hessian t.gradient) (hlow : w.memory.low = 0)
    (hslope : w.memory.newtonSlope = 0) :
    t.Tracks (t.tryNewton w).1 (t.tryNewton w).2 := by
  have hflat (length : ℝ) (s : Vector ℝ n) :
      (length - Geometry.norm s) * w.memory.newtonSlope = 0 := by rw [hslope, mul_zero]
  obtain ⟨e, he, heq⟩ | ⟨l, hl, ⟨hsmall, -⟩ | ⟨-, s, energy, heqn, -, hcases⟩⟩ :=
    t.tryNewton_cases w
  · have hbound (b : ℝ) (hb : (t.hessian.addToDiagonal b).matrix.PosDef) : -e.rayleigh ≤ b := by
      rw [← t.hessian.addToDiagonal_zero] at he
      have hlt := Symmetric.sub_rayleigh_lt hb he
      linarith
    rw [heq]
    refine ⟨{ hm with convex := fun b _ hb => ?_, slope := fun _ b s hb _ => ?_ },
      below_of_posDef hbound⟩
    · rw [neg_neg]
      exact hbound b hb
    · exact (hflat _ s).trans_le hb
  · rw [hlargest] at hsmall
    exact absurd hsmall (not_le.mpr (hclear l hl))
  · have hs := Symmetric.solves_of_cholesky hl heqn
    have hconvex (b : ℝ) (hb : 0 ≤ b) : -Geometry.norm s ≤ b :=
      (neg_nonpos.mpr (norm_nonneg s)).trans hb
    obtain ⟨-, heq⟩ | ⟨-, heq⟩ := hcases
    · rw [heq]
      refine ⟨{ hm with convex := fun b hb _ => hconvex b hb, slope := fun _ b u hb _ => ?_ },
        .inr (.inl rfl)⟩
      exact (hflat _ u).trans_le hb
    -- A Newton step that is too long becomes shorter at a known rate, so that the shift has a lower
    -- bound.
    · have hv := Lower.solve_eq_ok (Symmetric.cholesky_positiveDiagonal hl) s
      rw [← t.hessian.addToDiagonal_zero] at hl
      have hsteep (b : ℝ) (u : Vector ℝ n) (hb : 0 ≤ b) (hu : Solves t.hessian t.gradient b u) :=
        hs.slope_le hu hl hv hb
      have hnonneg : 0 ≤ Geometry.norm s / square (Geometry.norm (l.forward s)) :=
        div_nonneg (norm_nonneg s) (mul_self_nonneg _)
      rw [heq]
      refine ⟨⟨hm.circles, hm.gradientNorm, fun b hb _ => hconvex b hb, hnonneg,
        fun _ => hsteep, fun f hf => ?_⟩, ?_⟩
      · obtain rfl := Option.some.inj hf
        exact ⟨hl, hs, rfl⟩
      · dsimp only
        rw [hlow]
        refine below_zero.max fun b u hb hu hshort => ?_
        exact (mul_le_mul_of_nonneg_right (sub_le_sub_left hshort _) hnonneg).trans
          (hsteep b u hb hu)

theorem linked_widen (hm : m.Linked) : m.widen.Linked := by
  unfold StepMemory.widen
  split <;> exact hm

theorem linked_restartMemory (hm : m.Linked) : (t.restartMemory m).Linked := by
  unfold restartMemory bracketMemory
  dsimp only
  split
  · exact linked_widen hm
  · exact linked_widen hm

theorem restart_tracks (hr : 0 < t.radius) (hm : w.memory.Sound t.hessian t.gradient)
    (hlink : w.memory.Linked) : t.Tracks (t.restart w).1 (t.restart w).2 := by
  have hm' := encloses_restartMemory hr (m := { w.memory with count := 0 }) { hm with }
  obtain ⟨s, -, -, -, heq⟩ | ⟨-, ⟨last, hlast, heq⟩ | heq⟩ := t.restart_cases w
  · rw [heq]
    exact ⟨{ hm with }, .inr (.inl rfl)⟩
  · obtain ⟨hfactor, hs, hlength⟩ := hm'.sound.last last hlast
    have hlink' : (t.restartMemory { w.memory with count := 0 }).Linked :=
      linked_restartMemory hlink
    rw [heq, (t.hebden_next _).1]
    exact encloses_hebden hr (hm'.cutByLast hlink' hlast) rfl hfactor hs hlength rfl
  · rw [heq]
    exact hm'

def Knows (t : StepTask ℝ n) (m : StepMemory ℝ n) : Prop :=
  m.isFresh = false → m.Sound t.hessian t.gradient ∧ m.Linked

theorem opened_tracks (hclear : t.hessian.Clear) (hlargest : t.largestEntry = t.hessian.maxAbs)
    (hr : 0 < t.radius) (hm : t.Knows m) : t.Tracks (t.opened m).1 (t.opened m).2 := by
  unfold opened
  cases hfresh : m.isFresh with
  | true => exact tryNewton_tracks hclear hlargest freshStart_sound rfl rfl
  | false =>
    obtain ⟨hsound, hlink⟩ := hm hfresh
    exact restart_tracks hr hsound hlink

theorem run_opened (m : StepMemory ℝ n) :
    t.run (if m.isFresh then .freshStart else .restart) (.start m) =
      t.run (t.opened m).1 (t.opened m).2 := by
  unfold opened
  cases m.isFresh with
  | true =>
    rw [if_pos rfl, if_pos rfl, run, dif_neg (by decide), run, dif_neg (by rintro ⟨⟩)]
    rfl
  | false =>
    rw [if_neg (by decide), if_neg (by decide), run, dif_neg (by decide)]
    rfl

theorem Searches.tracks {phase : Phase} (hr : 0 < t.radius)
    (hm : t.Tracks (t.opened m).1 (t.opened m).2) (hw : t.Searches m phase w) :
    t.Encloses w.memory ∧ t.Tracks phase w := by
  induction hw with
  | bracket h =>
    rw [h] at hm
    exact ⟨encloses_bracket hr hm, encloses_bracket hr hm⟩
  | restart h =>
    rw [h] at hm
    exact ⟨hm, hm⟩
  | next _ hphase ih => exact transition_tracks hr ih.2 hphase

theorem finish_bracket (w : StepWork ℝ n) :
    (t.finish w).2.low = w.memory.low ∧ (t.finish w).2.high = w.memory.high := by
  unfold finish
  split <;> exact ⟨rfl, rfl⟩

theorem finish_linked (h : w.stuck = true ∨ w.parameter = 0 ∨
    ∀ f, w.memory.last = some f → f.parameter = |w.parameter|) : (t.finish w).2.Linked := by
  unfold finish
  split
  · exact .inl rfl
  · next hstuck =>
    rcases h with hstuck' | hzero | hlink
    · exact absurd hstuck' hstuck
    · left
      dsimp only
      rw [hzero, neg_zero, ite_self]
    · right
      intro f hf
      rw [hlink f hf]
      dsimp only
      split
      · rw [abs_neg]
      · rfl

theorem finish_knows (hw : t.Tracks .done w) : (t.finish w).2.Sound t.hessian t.gradient ∧
    (t.finish w).2.Linked := by
  obtain ⟨hsound, hlink⟩ := hw
  refine ⟨?_, finish_linked hlink⟩
  unfold finish
  split
  · exact { hsound with }
  · exact { hsound with }

end StepTask

variable {c : Config ℝ} {h : Symmetric ℝ n} {g d : Vector ℝ n} {m : StepMemory ℝ n} {radius a : ℝ}

theorem trustStep_tracks (hclear : (h.diagonallyScaled d).Clear) (hr : 0 < radius)
    (hm : (StepTask.ofModel h g d radius c).Knows m) :
    (trustStep c h g d radius m).2.Sound (h.diagonallyScaled d) (overEach g d) ∧
      (trustStep c h g d radius m).2.Linked := by
  have hopened := StepTask.opened_tracks (t := StepTask.ofModel h g d radius c) hclear rfl hr hm
  have hdone := (StepTask.run_tracks hr _ hopened).1
  rw [← StepTask.run_opened] at hdone
  exact StepTask.finish_knows hdone

theorem StepMemory.Serves.knows (hclear : (h.diagonallyScaled d).Clear)
    (hm : m.Serves c h g d) (radius : ℝ) : (StepTask.ofModel h g d radius c).Knows m := by
  intro hstale
  apply hm.keeps _ hstale
  exact fun _ hr ih _ => trustStep_tracks hclear hr ih

/-- From its bracket on, every phase of a call keeps the multiplier of its radius in the bracket,
whatever the radii of the calls before were. -/
theorem trustStep_encloses (hclear : (h.diagonallyScaled d).Clear) (hm : m.Serves c h g d)
    (hr : 0 < radius) (ha : Multiplier (h.diagonallyScaled d) (overEach g d) radius a) :
    (∀ phase w, (StepTask.ofModel h g d radius c).Searches m phase w →
      w.memory.low ≤ a ∧ a ≤ w.memory.high) ∧
    (((StepTask.ofModel h g d radius c).opened m).1 ≠ .done →
      (trustStep c h g d radius m).2.low ≤ a ∧ a ≤ (trustStep c h g d radius m).2.high) := by
  have hopened := StepTask.opened_tracks (t := StepTask.ofModel h g d radius c) hclear rfl hr
    (hm.knows hclear radius)
  refine ⟨fun phase w hw => (hw.tracks hr hopened).1.contains ha, fun hphase => ?_⟩
  have hencloses := ((StepTask.run_tracks hr _ hopened).2 hphase).contains ha
  rw [← StepTask.run_opened] at hencloses
  obtain ⟨hlow, hhigh⟩ := (StepTask.ofModel h g d radius c).finish_bracket
    ((StepTask.ofModel h g d radius c).run (if m.isFresh then .freshStart else .restart) (.start m))
  unfold trustStep
  dsimp only
  rw [hlow, hhigh]
  exact hencloses

/-- A model that is nowhere convex, asked for a step of length one and then for one of length
two, of which the multiplier is three halves. -/
theorem trustStep_encloses_concave :
    let h : Symmetric ℝ 1 := .ofFn fun _ _ => -1
    let m := (trustStep Config.default h #v[1] #v[1] 1 .new).2
    (∀ phase w, (StepTask.ofModel h #v[1] #v[1] 2 Config.default).Searches m phase w →
      w.memory.low ≤ 3 / 2 ∧ 3 / 2 ≤ w.memory.high) ∧
    (((StepTask.ofModel h #v[1] #v[1] 2 Config.default).opened m).1 ≠ .done →
      (trustStep Config.default h #v[1] #v[1] 2 m).2.low ≤ 3 / 2 ∧
      3 / 2 ≤ (trustStep Config.default h #v[1] #v[1] 2 m).2.high) := by
  intro h m
  have hmatrix : (h.diagonallyScaled #v[1]).matrix = -1 := by
    ext i j
    fin_cases i
    fin_cases j
    norm_num [Symmetric.matrix_diagonallyScaled, h, Symmetric.get_ofFn]
  have hform (v : Fin 1 → ℝ) : v ⬝ᵥ (h.diagonallyScaled #v[1]).matrix *ᵥ v = -(v ⬝ᵥ v) := by
    rw [hmatrix, neg_mulVec, one_mulVec, dotProduct_neg]
  refine trustStep_encloses ?_ (.after (.fresh rfl) one_pos) two_pos
    ⟨by norm_num, #v[-2], ⟨?_, ?_⟩, ?_⟩
  · intro l hl
    have hdef := Symmetric.posDef_of_cholesky hl
    have hpos := (Symmetric.posDef_iff _).mp hdef 1 one_ne_zero
    rw [hform] at hpos
    exact absurd hpos (not_lt.mpr (neg_nonpos.mpr (dotProduct_self_nonneg _)))
  · rw [Symmetric.posDef_iff]
    intro v hv
    have hsquare := dotProduct_self_pos hv
    rw [Symmetric.dotProduct_addToDiagonal, hform]
    linarith
  · rw [Symmetric.matrix_addToDiagonal, hmatrix]
    funext i
    fin_cases i
    norm_num [coords, overEach, add_mulVec, neg_mulVec, smul_mulVec, one_mulVec]
  · rw [norm_eq, show coords #v[(-2 : ℝ)] ⬝ᵥ coords #v[-2] = 2 * 2 by norm_num [coords, dotProduct]]
    exact Real.sqrt_mul_self two_pos.le

end LeastSquares
