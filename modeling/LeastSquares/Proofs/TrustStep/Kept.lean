import LeastSquares.Proofs.TrustStep.Reduction

namespace LeastSquares

variable {n : Nat}

section

variable {α : Type}

def StepMemory.newtonPart (m : StepMemory α n) : Option (Vector α n) × α × α :=
  (m.newton, m.newtonLength, m.newtonReduction)

variable [Geometry α] (t : StepTask α n) (m : StepMemory α n) (w : StepWork α n)

theorem StepMemory.newtonPart_widen : m.widen.newtonPart = m.newtonPart := by
  unfold widen
  split
  · rfl
  · rfl

namespace StepTask

theorem newtonPart_bracketMemory : (t.bracketMemory m).newtonPart = m.newtonPart :=
  StepMemory.newtonPart_widen _

theorem newtonPart_restartMemory : (t.restartMemory m).newtonPart = m.newtonPart := by
  unfold restartMemory
  rw [newtonPart_bracketMemory]
  split
  · rfl
  · rfl

theorem newtonPart_cutByLast (last : Factored α n) :
    (t.cutByLast m last).newtonPart = m.newtonPart := by
  unfold cutByLast
  rw [StepMemory.newtonPart_widen]
  split
  · rfl
  · split
    · rfl
    · rfl

theorem newtonPart_updateMemory : (updateMemory w).newtonPart = w.memory.newtonPart := by
  unfold updateMemory
  split
  · rfl
  · rfl

theorem newtonPart_hebden : (t.hebden w).2.memory.newtonPart = w.memory.newtonPart := by
  obtain heq | ⟨parameter, heq⟩ := t.hebden_cases w
  · rw [heq]
  · rw [heq]
    rfl

theorem newtonPart_restart : (t.restart w).2.memory.newtonPart = w.memory.newtonPart := by
  have hbracket : (t.restartMemory { w.memory with count := 0 }).newtonPart =
      w.memory.newtonPart := t.newtonPart_restartMemory _
  obtain ⟨s, -, -, -, heq⟩ | ⟨-, ⟨last, -, heq⟩ | heq⟩ := t.restart_cases w
  · rw [heq]
    rfl
  · rw [heq, newtonPart_hebden]
    exact (t.newtonPart_cutByLast _ last).trans hbracket
  · rw [heq]
    exact hbracket

theorem newtonPart_solve : (t.solve w).2.memory.newtonPart = w.memory.newtonPart := by
  obtain heq | heq | ⟨_, _, _, _, _, _, _, -, heq⟩ := t.solve_cases w
  · rw [heq]
  · rw [heq]
    exact StepMemory.newtonPart_widen _
  · rw [heq]
    rfl

theorem newtonPart_checkSpecial :
    (t.checkSpecial w).2.memory.newtonPart = w.memory.newtonPart := by
  obtain heq | ⟨low, heq⟩ | ⟨step, length, heq⟩ := t.checkSpecial_cases w
  · rw [heq]
  · rw [heq]
    rfl
  · rw [heq]

theorem newtonPart_update : (t.update w).2.memory.newtonPart = w.memory.newtonPart := by
  obtain ⟨-, heq⟩ | ⟨-, heq | heq⟩ := t.update_cases w
  · rw [heq]
  · rw [heq]
    exact newtonPart_updateMemory w
  · rw [heq, newtonPart_hebden]
    exact newtonPart_updateMemory w

theorem newtonPart_transition {phase : Phase} (hfresh : phase ≠ .freshStart)
    (hnewton : phase ≠ .tryNewton) (hshift : phase ≠ .shift) :
    (t.transition phase w).2.memory.newtonPart = w.memory.newtonPart := by
  cases phase with
  | freshStart => exact absurd rfl hfresh
  | tryNewton => exact absurd rfl hnewton
  | bracket => exact t.newtonPart_bracketMemory _
  | restart => exact t.newtonPart_restart w
  | shift => exact absurd rfl hshift
  | solve => exact t.newtonPart_solve w
  | checkSpecial => exact t.newtonPart_checkSpecial w
  | update => exact t.newtonPart_update w
  | done => rfl

theorem newtonPart_finish : (t.finish w).2.newtonPart = w.memory.newtonPart := by
  unfold finish
  split
  · rfl
  · rfl

/-- Only before the first phase can the count be below zero, by which a fresh memory is known. -/
def Numbered (phase : Phase) (w : StepWork α n) : Prop :=
  phase = .freshStart ∨ phase = .restart ∨ 0 ≤ w.memory.count

omit [Geometry α] in
theorem Numbered.count {phase : Phase} {w : StepWork α n} (hw : Numbered phase w)
    (hfresh : phase ≠ .freshStart) (hrestart : phase ≠ .restart) : 0 ≤ w.memory.count :=
  (hw.resolve_left hfresh).resolve_left hrestart

theorem count_transition {phase : Phase} (hw : Numbered phase w) :
    0 ≤ (t.transition phase w).2.memory.count := by
  have hcount := hw.count
  cases phase with
  | freshStart => exact le_refl 0
  | restart => exact restart_count.ge
  | tryNewton => simpa [transition, (t.tryNewton_next w).2] using hcount
  | bracket => simpa [transition, bracket, t.bracketMemory_count] using hcount
  | solve => simpa [transition, (t.solve_next w).2] using hcount
  | checkSpecial => simpa [transition, (t.checkSpecial_next w).2] using hcount
  | update => simpa [transition, (t.update_next w).2] using hcount
  | done => simpa [transition] using hcount
  | shift =>
    have hbefore : 0 ≤ w.memory.count := by simpa using hcount
    rw [transition, shift_count]
    omega

theorem count_finish : (t.finish w).2.count = w.memory.count := by
  unfold finish
  split
  · rfl
  · rfl

end StepTask

end

namespace StepTask

variable {t : StepTask ℝ n} {w : StepWork ℝ n}

theorem newtonPart_shift (hlow : 0 ≤ w.memory.low) :
    (t.shift w).2.memory.newtonPart = w.memory.newtonPart ∨
      (∃ e, (t.hessian.addToDiagonal
        (t.safeParameter { w.memory with count := w.memory.count + 1 } w.parameter)).cholesky =
          .error e) ∧
      (t.shift w).2.memory.newtonLength ≤ 0 := by
  obtain ⟨-, heq⟩ | ⟨-, a, rfl, ⟨l, -, heq⟩ | ⟨e, he, heq⟩⟩ := t.shift_cases w
  · rw [heq]
    exact .inl rfl
  · rw [heq]
    exact .inl rfl
  · refine .inr ⟨⟨e, he⟩, ?_⟩
    have hlength (m : StepMemory ℝ n) : m.widen.newtonLength = m.newtonLength :=
      congrArg (·.2.1) m.newtonPart_widen
    rw [heq, hlength]
    exact neg_nonpos.mpr (hlow.trans (le_max_left _ _))

end StepTask

theorem trustStep_stale (c : Config ℝ) (h : Symmetric ℝ n) (g d : Vector ℝ n) (radius : ℝ)
    (m : StepMemory ℝ n) : (trustStep c h g d radius m).2.isFresh = false := by
  have hstart : StepTask.Numbered (if m.isFresh then .freshStart else .restart)
      (.start m : StepWork ℝ n) := by
    cases m.isFresh with
    | true => exact .inl rfl
    | false => exact .inr (.inl rfl)
  have hrun := StepTask.run_invariant (StepTask.ofModel h g d radius c)
    (fun hw => .inr (.inr (StepTask.count_transition _ _ hw))) hstart
  have hcount := hrun.count nofun nofun
  unfold trustStep StepMemory.isFresh
  dsimp only
  rw [StepTask.count_finish]
  exact decide_eq_false (not_lt.mpr hcount)

end LeastSquares
