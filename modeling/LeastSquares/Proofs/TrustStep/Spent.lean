import LeastSquares.Proofs.TrustStep.Limit

namespace LeastSquares

variable {α : Type} {p : Nat}

namespace StepTask

def Factors (t : StepTask α p) (phase : Phase) (w : StepWork α p) : Prop :=
  phase = .shift ∧ w.memory.count < t.ceiling

/-- A move that asks for one more shift than there can be. -/
def GivesUp (t : StepTask α p) (phase : Phase) (w : StepWork α p) : Prop :=
  phase = .shift ∧ t.ceiling ≤ w.memory.count

instance (t : StepTask α p) (phase : Phase) (w : StepWork α p) : Decidable (t.Factors phase w) :=
  inferInstanceAs (Decidable (_ ∧ _))

variable [Geometry α]

/-- How many shifted Hessians are factored in the given number of moves. -/
def factored (t : StepTask α p) : Nat → Phase → StepWork α p → Nat
  | 0, _, _ => 0
  | k + 1, phase, w =>
    (if t.Factors phase w then 1 else 0) +
      t.factored k (t.transition phase w).1 (t.transition phase w).2

variable {t : StepTask α p} {w : StepWork α p} {phase : Phase} {n : Nat}

theorem after_succ (k : Nat) : t.after (k + 1) phase w =
    t.after k (t.transition phase w).1 (t.transition phase w).2 := by
  rw [after]
  split
  · next hdone =>
    subst hdone
    cases k with
    | zero => rfl
    | succ k => rw [transition, after, if_pos rfl]
  · rfl

theorem stuck_hebden : (t.hebden w).2.stuck = w.stuck := by
  obtain heq | ⟨parameter, heq⟩ := t.hebden_cases w
  · rw [heq]
  · rw [heq]

theorem stuck_tryNewton : (t.tryNewton w).2.stuck = w.stuck := by
  unfold tryNewton
  split
  · rfl
  · dsimp only
    split
    · rfl
    · split
      · rfl
      · split
        · rfl
        · split
          · rfl
          · rfl

theorem stuck_restart : (t.restart w).2.stuck = w.stuck := by
  obtain ⟨s, -, -, -, heq⟩ | ⟨-, ⟨last, -, heq⟩ | heq⟩ := t.restart_cases w
  · rw [heq]
  · rw [heq]
    exact stuck_hebden
  · rw [heq]

theorem stuck_solve : (t.solve w).2.stuck = w.stuck := by
  obtain heq | heq | ⟨_, _, _, _, _, _, _, -, heq⟩ := t.solve_cases w
  · rw [heq]
  · rw [heq]
  · rw [heq]

theorem stuck_checkSpecial : (t.checkSpecial w).2.stuck = w.stuck := by
  obtain heq | ⟨low, heq⟩ | ⟨step, length, heq⟩ := t.checkSpecial_cases w
  · rw [heq]
  · rw [heq]
  · rw [heq]

theorem stuck_update : (t.update w).2.stuck = w.stuck := by
  obtain ⟨-, heq⟩ | ⟨-, heq | heq⟩ := t.update_cases w
  · rw [heq]
  · rw [heq]
  · rw [heq]
    exact stuck_hebden

theorem stuck_shift (hcount : w.memory.count < t.ceiling) : (t.shift w).2.stuck = w.stuck := by
  obtain ⟨hgiven, -⟩ | ⟨-, a, -, ⟨l, -, heq⟩ | ⟨e, -, heq⟩⟩ := t.shift_cases w
  · omega
  · rw [heq]
  · rw [heq]

theorem stuck_transition (hgoes : ¬t.GivesUp phase w) :
    (t.transition phase w).2.stuck = w.stuck := by
  cases phase with
  | freshStart | bracket | done => rfl
  | tryNewton => exact stuck_tryNewton
  | restart => exact stuck_restart
  | shift => exact stuck_shift (not_le.mp fun hcount => hgoes ⟨rfl, hcount⟩)
  | solve => exact stuck_solve
  | checkSpecial => exact stuck_checkSpecial
  | update => exact stuck_update

theorem GivesUp.transition_eq (hw : t.GivesUp phase w) : t.transition phase w = (.done, { w with
    memory := { w.memory with count := w.memory.count + 1 }
    stuck := true }) := by
  obtain ⟨rfl, hcount⟩ := hw
  have hgiven : t.ceiling < w.memory.count + 1 := by omega
  simp only [transition, shift, if_pos hgiven]

theorem stuck_after (hstart : w.stuck = false) (k : Nat) : (t.after k phase w).2.stuck = true ↔
    ∃ j < k, t.GivesUp (t.after j phase w).1 (t.after j phase w).2 := by
  induction k generalizing phase w with
  | zero => simp [after, hstart]
  | succ k ih =>
    by_cases hgives : t.GivesUp phase w
    · have hdone : (t.after (k + 1) phase w).2.stuck = true := by
        rw [after_succ, hgives.transition_eq]
        cases k with
        | zero => rfl
        | succ k => rw [after, if_pos rfl]
      exact iff_of_true hdone ⟨0, Nat.succ_pos k, hgives⟩
    · rw [after_succ, ih ((stuck_transition hgives).trans hstart)]
      constructor
      · rintro ⟨j, hj, hlater⟩
        refine ⟨j + 1, Nat.succ_lt_succ hj, ?_⟩
        rwa [after_succ]
      · rintro ⟨j, hj, hlater⟩
        cases j with
        | zero => exact absurd hlater hgives
        | succ j =>
          rw [after_succ] at hlater
          exact ⟨j, Nat.lt_of_succ_lt_succ hj, hlater⟩

theorem count_eq_transition (hlater : phase ≠ .freshStart ∧ phase ≠ .restart)
    (hshift : phase ≠ .shift) : (t.transition phase w).2.memory.count = w.memory.count := by
  cases phase with
  | freshStart => exact absurd rfl hlater.1
  | restart => exact absurd rfl hlater.2
  | tryNewton => exact (t.tryNewton_next w).2
  | bracket => exact t.bracketMemory_count w.memory
  | shift => exact absurd rfl hshift
  | solve => exact (t.solve_next w).2
  | checkSpecial => exact (t.checkSpecial_next w).2
  | update => exact (t.update_next w).2
  | done => rfl

theorem stuck_run (hstart : w.stuck = false) : (t.run phase w).stuck = true ↔
    ∃ k, t.GivesUp (t.after k phase w).1 (t.after k phase w).2 := by
  have hends (k : Nat) (hk : t.left phase w ≤ k) := t.after_of_left_le k phase w hk
  constructor
  · intro hstuck
    have hflag : (t.after (t.left phase w) phase w).2.stuck = true := by
      rwa [hends _ le_rfl]
    obtain ⟨k, -, hgives⟩ := (stuck_after hstart _).mp hflag
    exact ⟨k, hgives⟩
  · rintro ⟨k, hgives⟩
    have hk : k < max (k + 1) (t.left phase w) := lt_max_of_lt_left (Nat.lt_succ_self k)
    have hstuck := (stuck_after hstart _).mpr ⟨k, hk, hgives⟩
    rwa [hends _ (le_max_right _ _)] at hstuck

/-- The shifts are counted one by one as they are factored, and one more when the call is given
up. -/
inductive Spent (t : StepTask α p) (n : Nat) (phase : Phase) (w : StepWork α p) : Prop
  | start (hphase : phase = .freshStart ∨ phase = .restart) (hn : n = 0) (hw : w.stuck = false)
  | going (hlater : phase ≠ .freshStart ∧ phase ≠ .restart) (hcount : w.memory.count = n)
      (hle : n ≤ t.ceiling) (hw : w.stuck = false)
  | givenUp (hphase : phase = .done) (hcount : w.memory.count = n + 1) (hle : n = t.ceiling)
      (hw : w.stuck = true)

theorem Spent.transition (ht : 0 ≤ t.ceiling) (hw : t.Spent n phase w) :
    t.Spent (n + if t.Factors phase w then 1 else 0) (t.transition phase w).1
      (t.transition phase w).2 := by
  have hlater' := t.transition_later phase w
  cases hw with
  | start hphase hn hw =>
    subst hn
    rcases hphase with rfl | rfl
    · rw [if_neg nofun]
      exact .going hlater' rfl ht hw
    · rw [if_neg nofun]
      exact .going hlater' restart_count ht (stuck_restart.trans hw)
  | givenUp hphase hcount hle hw =>
    subst hphase
    rw [if_neg nofun]
    exact .givenUp rfl hcount hle hw
  | going hlater hcount hle hw =>
    by_cases hshift : phase = .shift
    · subst hshift
      by_cases hfactors : w.memory.count < t.ceiling
      · have hcount' : (t.shift w).2.memory.count = w.memory.count + 1 := shift_count
        rw [if_pos ⟨rfl, hfactors⟩]
        exact .going hlater' (by simp [transition, hcount', hcount]) (by omega)
          ((stuck_shift hfactors).trans hw)
      · have hgives : t.GivesUp .shift w := ⟨rfl, not_lt.mp hfactors⟩
        rw [if_neg (fun h => hfactors h.2), hgives.transition_eq]
        exact .givenUp rfl (by simp [hcount]) (by simp only [add_zero]; omega) rfl
    · have hstuck := stuck_transition (t := t) (w := w) (fun h => hshift h.1)
      rw [if_neg (fun h => hshift h.1)]
      exact .going hlater' ((count_eq_transition hlater hshift).trans hcount) hle
        (hstuck.trans hw)

theorem Spent.after (ht : 0 ≤ t.ceiling) (hw : t.Spent n phase w) (k : Nat) :
    t.Spent (n + t.factored k phase w) (t.after k phase w).1 (t.after k phase w).2 := by
  induction k generalizing n phase w with
  | zero => exact hw
  | succ k ih =>
    have hlater := ih (hw.transition ht)
    rwa [after_succ, factored, ← Nat.add_assoc]

omit [Geometry α] in
theorem Spent.le (ht : 0 ≤ t.ceiling) (hw : t.Spent n phase w) : n ≤ t.ceiling := by
  cases hw with
  | start hphase hn hw => omega
  | going hlater hcount hle hw => exact hle
  | givenUp hphase hcount hle hw => exact hle.le

omit [Geometry α] in
theorem Spent.count (hw : t.Spent n .done w) :
    w.memory.count.toNat ≤ t.ceiling.toNat + 1 ∧
      (w.memory.count.toNat = t.ceiling.toNat + 1 ↔ w.stuck = true) := by
  cases hw with
  | start hphase hn hw => simp at hphase
  | going hlater hcount hle hw => exact ⟨by omega, iff_of_false (by omega) (by simp [hw])⟩
  | givenUp hphase hcount hle hw => exact ⟨by omega, iff_of_true (by omega) hw⟩

end StepTask

/-- Whatever the numbers and the memory are, a call ends, with no more shifted factorizations
than twice the limit. The count goes beyond that in the calls that are given up, and in those
alone. -/
theorem trustStep_spent [Geometry α] {c : Config α} (hlimit : c.hebdenIterationLimit < 2 ^ 30)
    (h : Symmetric α p) (g d : Vector α p) (radius : α) (m : StepMemory α p) :
    let t := StepTask.ofModel h g d radius c
    let start : Phase := if m.isFresh then .freshStart else .restart
    let call := trustStep c h g d radius m
    let reached k := t.after k start (.start m)
    (∃ k ≤ 16 * c.hebdenIterationLimit + 7,
      (reached k).1 = .done ∧ call = t.finish (reached k).2) ∧
    call.2.iterations ≤ 2 * c.hebdenIterationLimit + 1 ∧
    (∀ k, t.factored k start (.start m) ≤ 2 * c.hebdenIterationLimit) ∧
    (call.2.iterations = 2 * c.hebdenIterationLimit + 1 ↔
      ∃ k, t.GivesUp (reached k).1 (reached k).2) ∧
    ((∃ k, t.GivesUp (reached k).1 (reached k).2) → call.1.step = Vector.replicate p 0 ∧
      call.1.length = 0 ∧ call.1.slope = 0 ∧ call.1.reduction = 0 ∧ call.2.parameter = 0) := by
  intro t start call reached
  have hceiling : t.ceiling = 2 * c.hebdenIterationLimit := ceiling_ofModel hlimit h g d radius
  have hpositive : 0 ≤ t.ceiling := by omega
  have hphase : start = .freshStart ∨ start = .restart := by
    cases hfresh : m.isFresh <;> simp [start, hfresh]
  have hspent : t.Spent 0 start (.start m) := .start hphase rfl rfl
  have hends := (StepTask.halts_ofModel hlimit h g d radius (.start m) start hphase).1
  have hgiven : (t.run start (.start m)).stuck = true ↔
      ∃ k, t.GivesUp (reached k).1 (reached k).2 := StepTask.stuck_run rfl
  have hlast := hspent.after hpositive (16 * c.hebdenIterationLimit + 7)
  rw [hends] at hlast
  obtain ⟨hle, hiff⟩ := hlast.count
  have hiterations : call.2.iterations = (t.run start (.start m)).memory.count.toNat :=
    congrArg Int.toNat (t.count_finish _)
  rw [← hiterations] at hle hiff
  refine ⟨⟨_, le_rfl, congrArg Prod.fst hends, ?_⟩, by omega, fun k => ?_, ?_, fun hgives => ?_⟩
  · exact congrArg t.finish (congrArg Prod.snd hends).symm
  · have hfactored := (hspent.after hpositive k).le hpositive
    omega
  · rw [← hgiven, ← hiff]
    omega
  · have hstuck := hgiven.mpr hgives
    have hcall : call = t.finish (t.run start (.start m)) := rfl
    rw [hcall, StepTask.finish, if_pos hstuck]
    exact ⟨rfl, rfl, rfl, rfl, rfl⟩

/-- A call with one shift, none of a hundred being too many. -/
theorem trustStep_spent_parabola :
    let m : StepMemory ℝ 1 := { StepMemory.new with parameter := 3, radius := 1 / 4 }
    ∀ k, shortParabola.factored k .freshStart (.start m) ≤ 100 ∧
      ¬shortParabola.GivesUp (shortParabola.after k .freshStart (.start m)).1
        (shortParabola.after k .freshStart (.start m)).2 := by
  intro m k
  obtain ⟨hiterations, -, -⟩ := shortParabola_call
  obtain ⟨-, -, hfactored, hgiven, -⟩ := trustStep_spent (c := Config.default)
    default_hebdenLimit (.ofFn fun _ _ => 1) #v[1] #v[1] (1 / 4) m
  refine ⟨hfactored k, fun hgives => ?_⟩
  have hcount := hgiven.mpr ⟨k, hgives⟩
  rw [hiterations] at hcount
  norm_num [Config.default] at hcount

end LeastSquares
