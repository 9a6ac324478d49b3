import LeastSquares.Proofs.TrustStep.Landed

namespace LeastSquares

variable {α : Type} {p : Nat} [Geometry α]

namespace StepTask

section

variable {t : StepTask α p} {w : StepWork α p} {phase : Phase} {limit ceiling : Int}

def capped (t : StepTask α p) (limit ceiling : Int) : StepTask α p := { t with limit, ceiling }

theorem finish_capped (t : StepTask α p) (w : StepWork α p) :
    (t.capped limit ceiling).finish w = t.finish w := rfl

theorem finish_stuck (hw : w.stuck = true) : (t.finish w).1.step = Vector.replicate p 0 ∧
    (t.finish w).1.length = 0 ∧ (t.finish w).1.reduction = 0 := by
  rw [finish, if_pos hw]
  exact ⟨rfl, rfl, rfl⟩

theorem count_le_transition (hphase : phase ≠ .freshStart ∧ phase ≠ .restart) :
    w.memory.count ≤ (t.transition phase w).2.memory.count := by
  cases phase with
  | freshStart => exact absurd rfl hphase.1
  | restart => exact absurd rfl hphase.2
  | tryNewton => exact (t.tryNewton_next w).2.ge
  | bracket => exact (t.bracketMemory_count w.memory).ge
  | shift =>
    rw [transition, shift_count]
    omega
  | solve => exact (t.solve_next w).2.ge
  | checkSpecial => exact (t.checkSpecial_next w).2.ge
  | update => exact (t.update_next w).2.ge
  | done => exact le_refl _

theorem count_le_run (hphase : phase ≠ .freshStart ∧ phase ≠ .restart) :
    w.memory.count ≤ (t.run phase w).memory.count := by
  induction phase, w using StepTask.run.induct t with
  | case1 w => rw [run, dif_pos rfl]
  | case2 phase w h ih =>
    rw [run, dif_neg h]
    exact (count_le_transition hphase).trans (ih (t.transition_later phase w))

theorem safeParameter_capped {m : StepMemory α p} (hcount : m.count ≤ t.limit)
    (hmore : t.limit ≤ limit) (ceiling : Int) (a : α) :
    (t.capped limit ceiling).safeParameter m a = t.safeParameter m a := by
  have hpassed : ¬(t.capped limit ceiling).limit < m.count := not_lt.mpr (hcount.trans hmore)
  rw [safeParameter, safeParameter, if_neg hpassed, if_neg (not_lt.mpr hcount)]

section

variable (hlimit : t.limit ≤ t.ceiling) (hmore : t.limit ≤ limit) (hceiling : limit ≤ ceiling)
include hlimit hmore hceiling

theorem shift_capped (hcount : w.memory.count + 1 ≤ t.limit) :
    (t.capped limit ceiling).shift w = t.shift w := by
  have hsafe := safeParameter_capped (m := { w.memory with count := w.memory.count + 1 }) hcount
    hmore ceiling w.parameter
  have hgiven : ¬(t.capped limit ceiling).ceiling < w.memory.count + 1 :=
    not_lt.mpr (hcount.trans (hmore.trans hceiling))
  have hgiven' : ¬t.ceiling < w.memory.count + 1 := not_lt.mpr (hcount.trans hlimit)
  simp only [shift, hsafe, if_neg hgiven, if_neg hgiven']
  rfl

theorem transition_capped (hcount : (t.transition phase w).2.memory.count < t.limit) :
    (t.capped limit ceiling).transition phase w = t.transition phase w := by
  cases phase with
  | freshStart | tryNewton | bracket | restart | solve | checkSpecial | done => rfl
  | shift =>
    rw [transition, shift_count] at hcount
    exact shift_capped hlimit hmore hceiling (by omega)
  | update =>
    rw [transition, (t.update_next w).2] at hcount
    have hpassed : ¬(t.capped limit ceiling).limit ≤ w.memory.count :=
      not_le.mpr (hcount.trans_le hmore)
    simp only [transition, update, if_neg hpassed, if_neg (not_le.mpr hcount)]
    rfl

theorem run_capped (hcount : (t.run phase w).memory.count < t.limit) :
    (t.capped limit ceiling).run phase w = t.run phase w := by
  induction phase, w using StepTask.run.induct t with
  | case1 w => rw [run, dif_pos rfl, run, dif_pos rfl]
  | case2 phase w h ih =>
    rw [run, dif_neg h] at hcount
    have hbefore : (t.transition phase w).2.memory.count < t.limit :=
      (count_le_run (t.transition_later phase w)).trans_lt hcount
    rw [run, dif_neg h, transition_capped hlimit hmore hceiling hbefore, ih hcount]
    exact (by rw [run, dif_neg h] : t.run phase w = _).symm

end

def Unshifted (w : StepWork α p) : Phase → Prop
  | .freshStart | .restart => True
  | .tryNewton | .bracket | .shift | .done => w.memory.count = 0
  | .solve | .checkSpecial | .update => False

theorem unshifted_transition (hw : Unshifted w phase) (hshift : phase ≠ .shift) :
    Unshifted (t.transition phase w).2 (t.transition phase w).1 := by
  cases phase with
  | freshStart => exact rfl
  | tryNewton =>
    obtain ⟨h | h, hcount⟩ := t.tryNewton_next w <;> rw [transition, h] <;> exact hcount.trans hw
  | bracket => exact (t.bracketMemory_count w.memory).trans hw
  | restart =>
    obtain h | ⟨h, -⟩ := t.restart_next w <;> rw [transition, h] <;> exact restart_count
  | shift => exact absurd rfl hshift
  | solve | checkSpecial | update => exact hw.elim
  | done => exact hw

theorem run_shift_capped (hceiling : ceiling ≤ 0) (hcount : w.memory.count = 0) :
    ((t.capped limit ceiling).run .shift w).stuck = true ∧
      ((t.capped limit ceiling).run .shift w).memory.count = 1 := by
  have hgiven : (t.capped limit ceiling).ceiling < w.memory.count + 1 := by
    change ceiling < w.memory.count + 1
    omega
  have hshift : (t.capped limit ceiling).transition .shift w = (.done, { w with
      memory := { w.memory with count := w.memory.count + 1 }
      stuck := true }) := by
    simp only [transition, shift, if_pos hgiven]
  rw [run_next (by decide) hshift, run, dif_pos rfl]
  exact ⟨rfl, by simp [hcount]⟩

theorem run_unshifted (hw : Unshifted w phase) (limit ceiling : Int) :
    (t.run phase w).memory.count = 0 ∧ (t.capped limit ceiling).run phase w = t.run phase w ∨
      1 ≤ (t.run phase w).memory.count ∧ (ceiling ≤ 0 →
        ((t.capped limit ceiling).run phase w).stuck = true ∧
        ((t.capped limit ceiling).run phase w).memory.count = 1) := by
  induction phase, w using StepTask.run.induct t with
  | case1 w =>
    rw [run, dif_pos rfl, run, dif_pos rfl]
    exact .inl ⟨hw, rfl⟩
  | case2 phase w h ih =>
    by_cases hshift : phase = .shift
    · subst hshift
      right
      refine ⟨?_, fun hceiling => run_shift_capped hceiling hw⟩
      have hcount : w.memory.count = 0 := hw
      rw [run, dif_neg h]
      refine le_trans ?_ (count_le_run (t.transition_later .shift w))
      rw [transition, shift_count, hcount]
      rfl
    · have hsame : (t.capped limit ceiling).transition phase w = t.transition phase w := by
        cases phase with
        | freshStart | tryNewton | bracket | restart | done => rfl
        | shift => exact absurd rfl hshift
        | solve | checkSpecial | update => exact hw.elim
      rw [run_next h hsame, run_next (t := t) h rfl]
      exact ih (unshifted_transition hw hshift)

end

end StepTask

/-- A limit that is not reached does not matter to the next larger ones, and none matters to a call
without shifts. A limit of which the ceiling is no number above zero gives up every other call. -/
theorem trustStep_limit (c : Config α) (k : Nat) (h : Symmetric α p) (g d : Vector α p)
    (radius : α) (m : StepMemory α p) :
    let call := trustStep c h g d radius m
    let other := trustStep { c with hebdenIterationLimit := k } h g d radius m
    (c.hebdenIterationLimit ≤ k → k < 2 ^ 30 → call.2.iterations < c.hebdenIterationLimit →
      other = call) ∧
    (call.2.iterations = 0 → other = call) ∧
    (call.2.iterations ≠ 0 → word (2 * word k) ≤ 0 → other.1.step = Vector.replicate p 0 ∧
      other.1.length = 0 ∧ other.1.reduction = 0 ∧ other.2.iterations = 1) := by
  intro call other
  let t := StepTask.ofModel h g d radius c
  let start := if m.isFresh then Phase.freshStart else .restart
  let w := t.run start (.start m)
  let w' := (t.capped (word k) (word (2 * word k))).run start (.start m)
  have hcall : call = t.finish w := rfl
  have hcapped : StepTask.ofModel h g d radius { c with hebdenIterationLimit := k } =
      t.capped (word k) (word (2 * word k)) := rfl
  have hother : other = t.finish w' := by
    rw [← t.finish_capped]
    exact congrArg (fun t => t.finish (t.run start (.start m))) hcapped
  have hiterations : call.2.iterations = w.memory.count.toNat := by
    rw [hcall, StepMemory.iterations, t.count_finish]
  have hstart : StepTask.Unshifted (.start m : StepWork α p) start := by
    cases hfresh : m.isFresh <;> simp [start, hfresh, StepTask.Unshifted]
  have hunshifted := StepTask.run_unshifted (t := t) hstart (word k) (word (2 * word k))
  refine ⟨fun hmore hlimit hcount => ?_, fun hzero => ?_, fun hshifted hceiling => ?_⟩
  · have hword : word k = k := word_of_lt (Int.natCast_nonneg _) (by omega)
    have hdouble : word (2 * word k) = 2 * k := by
      rw [hword]
      exact word_of_lt (by omega) (by omega)
    have hlimit' : t.limit = c.hebdenIterationLimit := limit_ofModel (by omega) h g d radius
    have hceiling' : t.ceiling = 2 * c.hebdenIterationLimit :=
      ceiling_ofModel (by omega) h g d radius
    have hbefore : (t.run start (.start m)).memory.count < t.limit := by
      rw [hiterations, Int.toNat_lt' (by omega)] at hcount
      rwa [hlimit']
    have hsame : w' = w :=
      StepTask.run_capped (by omega) (by omega) (by omega) hbefore
    rw [hother, hcall, hsame]
  · obtain ⟨-, hsame⟩ | ⟨hcount, -⟩ := hunshifted
    · rw [hother, hcall]
      exact congrArg t.finish hsame
    · rw [hiterations] at hzero
      change 1 ≤ w.memory.count at hcount
      omega
  · obtain ⟨hcount, -⟩ | ⟨-, hgiven⟩ := hunshifted
    · rw [hiterations] at hshifted
      change w.memory.count = 0 at hcount
      omega
    · obtain ⟨hstuck, hone⟩ := hgiven hceiling
      obtain ⟨hstep, hlength, hreduction⟩ := StepTask.finish_stuck (t := t) hstuck
      rw [hother, StepMemory.iterations, t.count_finish]
      exact ⟨hstep, hlength, hreduction, congrArg Int.toNat hone⟩

/-- A call of one shift with the limit of 50, with twice that, and with the largest limit of 64
bits, which is a ceiling below zero. -/
theorem trustStep_limit_parabola :
    let m : StepMemory ℝ 1 := { StepMemory.new with parameter := 3, radius := 1 / 4 }
    let call (c : Config ℝ) := trustStep c (.ofFn fun _ _ => 1) #v[1] #v[1] (1 / 4) m
    call { Config.default with hebdenIterationLimit := 100 } = call Config.default ∧
      (call Config.default).1.length = 1 / 4 ∧
      (call { Config.default with hebdenIterationLimit := 2 ^ 64 - 1 }).1.length = 0 := by
  intro m call
  obtain ⟨hiterations, -, hlength⟩ := shortParabola_call
  obtain ⟨hmore, -, -⟩ := trustStep_limit (Config.default : Config ℝ) 100 (.ofFn fun _ _ => 1) #v[1]
    #v[1] (1 / 4) m
  obtain ⟨-, -, hgiven⟩ := trustStep_limit (Config.default : Config ℝ) (2 ^ 64 - 1)
    (.ofFn fun _ _ => 1) #v[1] #v[1] (1 / 4) m
  refine ⟨hmore ?_ (by norm_num) ?_, hlength, (hgiven ?_ (by decide)).2.1⟩
  · norm_num [Config.default]
  · rw [hiterations]
    norm_num [Config.default]
  · rw [hiterations]
    exact one_ne_zero

end LeastSquares
