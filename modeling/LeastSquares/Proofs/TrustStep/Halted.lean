import LeastSquares.TrustStep.Run
import Mathlib.Algebra.Group.Int.Defs
import Mathlib.Algebra.Group.Nat.Defs

namespace LeastSquares

variable {α : Type} {p : Nat} [Geometry α]

def Phase.followers : Phase → List Phase
  | freshStart => [tryNewton]
  | tryNewton => [bracket, done]
  | bracket => [shift]
  | restart => [shift, done]
  | shift => [shift, solve, done]
  | solve => [shift, checkSpecial, update, done]
  | checkSpecial => [update, done]
  | update => [shift, done]
  | done => [done]

namespace StepTask

variable (t : StepTask α p)

theorem transition_mem (phase : Phase) (w : StepWork α p) :
    (t.transition phase w).1 ∈ phase.followers := by
  cases phase with
  | freshStart | bracket | done => exact List.mem_singleton_self _
  | tryNewton => obtain ⟨h | h, -⟩ := t.tryNewton_next w <;> simp [transition, Phase.followers, h]
  | restart => obtain h | ⟨h, -⟩ := t.restart_next w <;> simp [transition, Phase.followers, h]
  | shift => obtain h | ⟨h | h, -⟩ := t.shift_next w <;> simp [transition, Phase.followers, h]
  | solve =>
    obtain ⟨h | h | h | h, -⟩ := t.solve_next w <;> simp [transition, Phase.followers, h]
  | checkSpecial =>
    obtain ⟨h | h, -⟩ := t.checkSpecial_next w <;> simp [transition, Phase.followers, h]
  | update => obtain ⟨h | h, -⟩ := t.update_next w <;> simp [transition, Phase.followers, h]

theorem transition_later (phase : Phase) (w : StepWork α p) :
    (t.transition phase w).1 ≠ .freshStart ∧ (t.transition phase w).1 ≠ .restart := by
  have hmem := t.transition_mem phase w
  constructor <;> intro heq <;> rw [heq] at hmem <;> cases phase <;> simp_all [Phase.followers]

variable {t} in
theorem run_next {phase phase' : Phase} {w w' : StepWork α p} (hphase : phase ≠ .done)
    (h : t.transition phase w = (phase', w')) : t.run phase w = t.run phase' w' := by
  rw [run, dif_neg hphase, h]

def after : Nat → Phase → StepWork α p → Phase × StepWork α p
  | 0, phase, w => (phase, w)
  | k + 1, phase, w =>
    if phase = .done then (.done, w)
    else after k (t.transition phase w).1 (t.transition phase w).2

theorem after_of_left_le (k : Nat) (phase : Phase) (w : StepWork α p) (hk : t.left phase w ≤ k) :
    t.after k phase w = (.done, t.run phase w) := by
  induction k generalizing phase w with
  | zero =>
    by_cases hdone : phase = .done
    · subst hdone
      rw [run, dif_pos rfl]
      rfl
    · have hleft := t.left_transition w phase hdone
      omega
  | succ k ih =>
    rw [run, after]
    by_cases hdone : phase = .done
    · rw [if_pos hdone, dif_pos hdone]
    · have hleft := t.left_transition w phase hdone
      rw [if_neg hdone, dif_neg hdone]
      exact ih _ _ (by omega)

theorem after_invariant (inv : Phase → StepWork α p → Prop)
    (hstep : ∀ {phase w}, inv phase w → inv (t.transition phase w).1 (t.transition phase w).2)
    (k : Nat) {phase : Phase} {w : StepWork α p} (hw : inv phase w) :
    inv (t.after k phase w).1 (t.after k phase w).2 := by
  induction k generalizing phase w with
  | zero => exact hw
  | succ k ih =>
    rw [after]
    split
    · next hdone =>
      subst hdone
      exact hw
    · exact ih (hstep hw)

/-- How far the shifts are counted before each phase. A start forgets the count it finds. -/
def Counted (w : StepWork α p) : Phase → Prop
  | .freshStart | .restart => True
  | .done => 0 ≤ w.memory.count ∧ w.memory.count ≤ t.ceiling + 1
  | _ => 0 ≤ w.memory.count ∧ w.memory.count ≤ t.ceiling

variable {t} {w w' : StepWork α p}

theorem restart_count : (t.restart w).2.memory.count = 0 := by
  obtain ⟨s, -, -, -, heq⟩ | ⟨-, ⟨last, -, heq⟩ | heq⟩ := t.restart_cases w
  · rw [heq]
  · rw [heq, (t.hebden_next _).2]
    exact (t.cutByLast_count _ last).trans (t.restartMemory_count _)
  · rw [heq]
    exact t.restartMemory_count _

theorem shift_count : (t.shift w).2.memory.count = w.memory.count + 1 := by
  obtain ⟨-, heq⟩ | ⟨-, a, -, ⟨l, -, heq⟩ | ⟨e, -, heq⟩⟩ := t.shift_cases w
  · rw [heq]
  · rw [heq]
  · rw [heq]
    exact widen_count _

omit [Geometry α] in
theorem counted_of_le {phase : Phase} (h0 : 0 ≤ w.memory.count)
    (hle : w.memory.count ≤ t.ceiling) : t.Counted w phase := by
  cases phase with
  | freshStart | restart => trivial
  | done => exact ⟨h0, by omega⟩
  | _ => exact ⟨h0, hle⟩

omit [Geometry α] in
theorem counted_of_eq {phase : Phase}
    (hw : 0 ≤ w.memory.count ∧ w.memory.count ≤ t.ceiling)
    (heq : w'.memory.count = w.memory.count) : t.Counted w' phase :=
  counted_of_le (heq ▸ hw.1) (heq ▸ hw.2)

theorem counted_transition (ht : 0 ≤ t.ceiling) {phase : Phase} (hw : t.Counted w phase) :
    t.Counted (t.transition phase w).2 (t.transition phase w).1 := by
  cases phase with
  | freshStart => exact counted_of_le (Int.le_refl 0) ht
  | restart =>
    have hcount : (t.restart w).2.memory.count = 0 := restart_count
    exact counted_of_le (Int.le_of_eq hcount.symm) (Int.le_trans (Int.le_of_eq hcount) ht)
  | tryNewton => exact counted_of_eq hw (t.tryNewton_next w).2
  | bracket => exact counted_of_eq hw (t.bracketMemory_count _)
  | solve => exact counted_of_eq hw (t.solve_next w).2
  | checkSpecial => exact counted_of_eq hw (t.checkSpecial_next w).2
  | update => exact counted_of_eq hw (t.update_next w).2
  | shift =>
    obtain ⟨h0, hle⟩ := hw
    have hcount : (t.shift w).2.memory.count = w.memory.count + 1 := shift_count
    change t.Counted (t.shift w).2 (t.shift w).1
    rcases t.shift_next w with hdone | ⟨-, -, hlt⟩
    · rw [hdone]
      exact ⟨by omega, by omega⟩
    · exact counted_of_le (by omega) (by omega)
  | done => exact hw

theorem counted_after (ht : 0 ≤ t.ceiling) (k : Nat) {phase : Phase} (hw : t.Counted w phase) :
    t.Counted (t.after k phase w).2 (t.after k phase w).1 :=
  t.after_invariant (fun phase w => t.Counted w phase) (counted_transition ht) k hw

end StepTask

theorem word_of_lt {k : Int} (hk : 0 ≤ k) (hlt : k < 2 ^ 31) : word k = k := by
  rw [word, Int.bmod_eq_of_le] <;> omega

theorem limit_ofModel {c : Config α} (hlimit : c.hebdenIterationLimit < 2 ^ 30)
    (h : Symmetric α p) (g d : Vector α p) (radius : α) :
    (StepTask.ofModel h g d radius c).limit = c.hebdenIterationLimit := by
  have hword : word c.hebdenIterationLimit = c.hebdenIterationLimit :=
    word_of_lt (Int.natCast_nonneg _) (by omega)
  simp only [StepTask.ofModel, hword]

theorem ceiling_ofModel {c : Config α} (hlimit : c.hebdenIterationLimit < 2 ^ 30)
    (h : Symmetric α p) (g d : Vector α p) (radius : α) :
    (StepTask.ofModel h g d radius c).ceiling = 2 * c.hebdenIterationLimit := by
  have hword : word c.hebdenIterationLimit = c.hebdenIterationLimit :=
    word_of_lt (Int.natCast_nonneg _) (by omega)
  simp only [StepTask.ofModel, hword]
  exact word_of_lt (by omega) (by omega)

namespace StepTask

/-- However it starts, the loop ends within this many moves, and no count leaves the words. -/
def Halts (t : StepTask α p) (k : Nat) : Prop :=
  ∀ w phase, phase = .freshStart ∨ phase = .restart →
    t.after k phase w = (.done, t.run phase w) ∧
      ∀ j, (t.after j phase w).1 ≠ .freshStart → (t.after j phase w).1 ≠ .restart →
        0 ≤ (t.after j phase w).2.memory.count ∧ (t.after j phase w).2.memory.count < 2 ^ 31

theorem halts_ofModel {c : Config α} (hlimit : c.hebdenIterationLimit < 2 ^ 30)
    (h : Symmetric α p) (g d : Vector α p) (radius : α) :
    (ofModel h g d radius c).Halts (16 * c.hebdenIterationLimit + 7) := by
  have hceiling := ceiling_ofModel hlimit h g d radius
  intro w phase hphase
  have hleft : (ofModel h g d radius c).left phase w =
      8 * (ofModel h g d radius c).ceiling.toNat + 7 := by
    rcases hphase with rfl | rfl <;> rfl
  have hstart : (ofModel h g d radius c).Counted w phase := by
    rcases hphase with rfl | rfl <;> trivial
  refine ⟨after_of_left_le _ _ _ _ (by omega), fun j hfresh hrestart => ?_⟩
  have hcounted := counted_after (by omega) j hstart
  generalize (ofModel h g d radius c).after j phase w = a at hcounted hfresh hrestart ⊢
  obtain ⟨phase', w'⟩ := a
  dsimp only at hcounted hfresh hrestart ⊢
  cases phase' with
  | freshStart => exact absurd rfl hfresh
  | restart => exact absurd rfl hrestart
  | _ => exact ⟨hcounted.1, by have hle := hcounted.2; omega⟩

end StepTask

end LeastSquares
