import LeastSquares.TrustStep.Machine

namespace LeastSquares

variable {α : Type} {p : Nat}

def Phase.rank : Phase → Nat
  | freshStart | restart => 7
  | tryNewton => 6
  | bracket => 5
  | solve => 4
  | checkSpecial => 3
  | update => 2
  | shift => 1
  | done => 0

namespace StepTask

/-- Every shift uses up one of those below the ceiling, and the phases between two shifts
come in a fixed order. -/
def left (t : StepTask α p) : Phase → StepWork α p → Nat
  | .done, _ => 0
  | .freshStart, _ | .restart, _ => 8 * t.ceiling.toNat + 7
  | phase, w => 8 * (t.ceiling - w.memory.count).toNat + phase.rank

variable [Geometry α] (t : StepTask α p) (w : StepWork α p)

theorem widen_count (m : StepMemory α p) : m.widen.count = m.count := by
  unfold StepMemory.widen; split <;> rfl

theorem bracketMemory_count (m : StepMemory α p) : (t.bracketMemory m).count = m.count :=
  widen_count _

theorem restartMemory_count (m : StepMemory α p) : (t.restartMemory m).count = m.count := by
  unfold restartMemory
  dsimp only
  split <;> exact t.bracketMemory_count _

theorem cutByLast_count (m : StepMemory α p) (l : Factored α p) :
    (t.cutByLast m l).count = m.count := by
  unfold cutByLast
  dsimp only
  split
  · rw [widen_count]; rfl
  · split <;> rw [widen_count]

/-- A step of Hebden's method cannot be formed, or its parameter is a new bound from below. -/
theorem hebden_cases : t.hebden w = (.shift, w) ∨ ∃ parameter,
    t.hebden w = (.shift, { w with parameter, memory := w.memory.raiseLow parameter }) := by
  unfold hebden
  split
  · exact .inl rfl
  · split
    · exact .inl rfl
    · dsimp only
      split
      · exact .inr ⟨_, rfl⟩
      · exact .inl rfl

theorem hebden_next : (t.hebden w).1 = .shift ∧ (t.hebden w).2.memory.count = w.memory.count := by
  obtain heq | ⟨parameter, heq⟩ := t.hebden_cases w
  · rw [heq]
    exact ⟨rfl, rfl⟩
  · rw [heq]
    exact ⟨rfl, rfl⟩

theorem tryNewton_next :
    ((t.tryNewton w).1 = .done ∨ (t.tryNewton w).1 = .bracket) ∧
      (t.tryNewton w).2.memory.count = w.memory.count := by
  unfold tryNewton
  split
  · exact ⟨.inr rfl, rfl⟩
  · dsimp only
    split
    · exact ⟨.inr rfl, rfl⟩
    · split
      · exact ⟨.inr rfl, rfl⟩
      · split
        · exact ⟨.inl rfl, rfl⟩
        · split <;> exact ⟨.inr rfl, rfl⟩

/-- The Newton step that is kept still fits, or the last step is taken up again, or the search
begins with the bracket alone. -/
theorem restart_cases :
    (∃ s, w.memory.newton = some s ∧ 0 < w.memory.newtonLength ∧
      w.memory.newtonLength - t.radius ≤ t.longBy ∧ t.restart w = (.done, { w with
        memory := { w.memory with count := 0 }
        step := s
        parameter := 0
        length := w.memory.newtonLength
        energy := 2 * w.memory.newtonReduction })) ∨
    (∀ s, w.memory.newton = some s → 0 < w.memory.newtonLength →
      ¬w.memory.newtonLength - t.radius ≤ t.longBy) ∧
    ((∃ last, (t.restartMemory { w.memory with count := 0 }).last = some last ∧
      t.restart w = t.hebden { w with
        memory := t.cutByLast (t.restartMemory { w.memory with count := 0 }) last
        parameter := last.parameter
        length := last.length
        excess := last.length - t.radius
        step := last.step
        factor := some last.factor }) ∨
    t.restart w = (.shift, { w with
      memory := t.restartMemory { w.memory with count := 0 }
      parameter := t.guess (t.restartMemory { w.memory with count := 0 }) })) := by
  unfold restart
  dsimp only
  split
  · next s hs =>
    split at hs
    · next hfits =>
      obtain ⟨hpos, hle⟩ := of_decide_eq_true hfits
      exact .inl ⟨s, hs, hpos, hle, rfl⟩
    · cases hs
  · next hs =>
    refine .inr ⟨fun s hnewton hpos hle => ?_, ?_⟩
    · split at hs
      · rw [hnewton] at hs
        cases hs
      · next hlong => exact hlong (decide_eq_true ⟨hpos, hle⟩)
    · split
      · next last hlast => exact .inl ⟨last, hlast, rfl⟩
      · exact .inr rfl

theorem restart_next :
    (t.restart w).1 = .done ∨ (t.restart w).1 = .shift ∧ (t.restart w).2.memory.count = 0 := by
  obtain ⟨s, -, -, -, heq⟩ | ⟨-, ⟨last, -, heq⟩ | heq⟩ := t.restart_cases w
  · rw [heq]
    exact .inl rfl
  · rw [heq]
    refine .inr ⟨(t.hebden_next _).1, (t.hebden_next _).2.trans ?_⟩
    exact (t.cutByLast_count _ last).trans (t.restartMemory_count _)
  · rw [heq]
    exact .inr ⟨rfl, t.restartMemory_count _⟩

/-- The limit is passed, or a shift makes the Hessian positive definite, or it is a bound from
below. -/
theorem shift_cases :
    t.ceiling < w.memory.count + 1 ∧ t.shift w = (.done, { w with
      memory := { w.memory with count := w.memory.count + 1 }
      stuck := true }) ∨
    ¬t.ceiling < w.memory.count + 1 ∧
      ∃ a, a = t.safeParameter { w.memory with count := w.memory.count + 1 } w.parameter ∧
        ((∃ l, (t.hessian.addToDiagonal a).cholesky = .ok l ∧ t.shift w = (.solve, { w with
          memory := { w.memory with count := w.memory.count + 1 }
          parameter := a
          factor := some l })) ∨
        ∃ e, (t.hessian.addToDiagonal a).cholesky = .error e ∧ t.shift w = (.shift, { w with
          memory := StepMemory.widen { w.memory with
            count := w.memory.count + 1
            low := max w.memory.low (a - e.rayleigh)
            newtonLength := -max w.memory.low (a - e.rayleigh) }
          parameter := a })) := by
  unfold shift
  dsimp only
  split
  · next hgiven => exact .inl ⟨hgiven, rfl⟩
  · next hleft =>
    refine .inr ⟨hleft, _, rfl, ?_⟩
    split
    · next l hl => exact .inl ⟨l, hl, rfl⟩
    · next e he => exact .inr ⟨e, he, rfl⟩

theorem shift_next :
    (t.shift w).1 = .done ∨ ((t.shift w).1 = .solve ∨ (t.shift w).1 = .shift) ∧
      (t.shift w).2.memory.count = w.memory.count + 1 ∧ w.memory.count < t.ceiling := by
  obtain ⟨-, heq⟩ | ⟨hleft, a, -, ⟨l, -, heq⟩ | ⟨e, -, heq⟩⟩ := t.shift_cases w
  · rw [heq]
    exact .inl rfl
  · rw [heq]
    exact .inr ⟨.inl rfl, rfl, by omega⟩
  · rw [heq]
    exact .inr ⟨.inr rfl, widen_count _, by omega⟩

/-- The shift cannot be solved with, or its step is measured and is the last one from now on. -/
theorem solve_cases : t.solve w = (.shift, w) ∨
    t.solve w = (.shift, { w with memory := (w.memory.raiseLow w.parameter).widen }) ∨
    ∃ phase energy length step excess last lastExcess,
      (phase = .done ∨ phase = .checkSpecial ∨ phase = .update) ∧
      t.solve w = (phase, { w with
        energy
        length
        step
        excess
        lastExcess
        memory := { w.memory with last } }) := by
  unfold solve
  split
  · exact .inl rfl
  · split
    · exact .inr (.inl rfl)
    · right
      right
      dsimp only
      split
      · exact ⟨_, _, _, _, _, _, _, .inl rfl, rfl⟩
      · split
        · exact ⟨_, _, _, _, _, _, _, .inl rfl, rfl⟩
        · refine ⟨_, _, _, _, _, _, _, .inr ?_, rfl⟩
          split
          · exact .inl rfl
          · exact .inr rfl

theorem solve_next :
    ((t.solve w).1 = .done ∨ (t.solve w).1 = .shift ∨ (t.solve w).1 = .checkSpecial ∨
      (t.solve w).1 = .update) ∧ (t.solve w).2.memory.count = w.memory.count := by
  obtain heq | heq | ⟨_, _, _, _, _, _, _, hphase, heq⟩ := t.solve_cases w
  · rw [heq]
    exact ⟨.inr (.inl rfl), rfl⟩
  · rw [heq]
    exact ⟨.inr (.inl rfl), widen_count _⟩
  · rw [heq]
    exact ⟨hphase.imp_right .inr, rfl⟩

/-- The step is stretched along the direction of least curvature, or all that is learned of that
direction is a bound from below. -/
theorem checkSpecial_cases : t.checkSpecial w = (.update, w) ∨
    (∃ low, t.checkSpecial w = (.update, { w with memory := w.memory.raiseLow low })) ∨
    ∃ step length, t.checkSpecial w = (.done, { w with step, length, special := true }) := by
  unfold checkSpecial
  split
  · exact .inl rfl
  · dsimp only
    split
    · exact .inl rfl
    · split
      · exact .inl rfl
      · split
        · exact .inr (.inr ⟨_, _, rfl⟩)
        · exact .inr (.inl ⟨_, rfl⟩)

theorem checkSpecial_next :
    ((t.checkSpecial w).1 = .done ∨ (t.checkSpecial w).1 = .update) ∧
      (t.checkSpecial w).2.memory.count = w.memory.count := by
  obtain heq | ⟨low, heq⟩ | ⟨step, length, heq⟩ := t.checkSpecial_cases w
  · rw [heq]
    exact ⟨.inr rfl, rfl⟩
  · rw [heq]
    exact ⟨.inr rfl, rfl⟩
  · rw [heq]
    exact ⟨.inl rfl, rfl⟩

theorem updateMemory_count : (updateMemory w).count = w.memory.count := by
  unfold updateMemory; split <;> rfl

/-- At the limit the step is good enough; before it the bracket is made smaller, and a step of
Hebden's method follows unless there is no gradient. -/
theorem update_cases : t.limit ≤ w.memory.count ∧ t.update w = (.done, w) ∨
    ¬t.limit ≤ w.memory.count ∧ (t.update w = (.shift, { w with memory := updateMemory w }) ∨
      t.update w = t.hebden { w with memory := updateMemory w }) := by
  unfold update
  split
  · next hlimit => exact .inl ⟨hlimit, rfl⟩
  · next hbefore =>
    refine .inr ⟨hbefore, ?_⟩
    split
    · exact .inl rfl
    · exact .inr rfl

theorem update_next :
    ((t.update w).1 = .done ∨ (t.update w).1 = .shift) ∧
      (t.update w).2.memory.count = w.memory.count := by
  obtain ⟨-, heq⟩ | ⟨-, heq | heq⟩ := t.update_cases w
  · rw [heq]
    exact ⟨.inl rfl, rfl⟩
  · rw [heq]
    exact ⟨.inr rfl, updateMemory_count w⟩
  · rw [heq]
    exact ⟨.inr (t.hebden_next _).1, (t.hebden_next _).2.trans (updateMemory_count w)⟩

theorem left_transition (phase : Phase) (h : phase ≠ .done) :
    t.left (t.transition phase w).1 (t.transition phase w).2 < t.left phase w := by
  cases phase with
  | done => exact absurd rfl h
  | freshStart => simp [transition, freshStart, left, Phase.rank]
  | bracket => simp [transition, bracket, left, Phase.rank, bracketMemory_count]
  | tryNewton =>
    obtain ⟨h1 | h1, h2⟩ := t.tryNewton_next w <;> simp [transition, left, Phase.rank, h1, h2]
  | restart =>
    obtain h1 | ⟨h1, h2⟩ := t.restart_next w <;> simp [transition, left, Phase.rank, h1]
    rw [h2]; omega
  | shift =>
    obtain h1 | ⟨h1 | h1, h2, h3⟩ := t.shift_next w <;> simp [transition, left, Phase.rank, h1]
    · rw [h2]; omega
    · rw [h2]; omega
  | solve =>
    obtain ⟨h1 | h1 | h1 | h1, h2⟩ := t.solve_next w <;> simp [transition, left, Phase.rank, h1, h2]
  | checkSpecial =>
    obtain ⟨h1 | h1, h2⟩ := t.checkSpecial_next w <;> simp [transition, left, Phase.rank, h1, h2]
  | update =>
    obtain ⟨h1 | h1, h2⟩ := t.update_next w <;> simp [transition, left, Phase.rank, h1, h2]

def run (phase : Phase) (w : StepWork α p) : StepWork α p :=
  if _ : phase = .done then w
  else run (t.transition phase w).1 (t.transition phase w).2
termination_by t.left phase w
decreasing_by exact t.left_transition w phase (by assumption)

/-- The step in its own scale, and the memory of it. -/
def finish : Trial α p × StepMemory α p :=
  if w.stuck then
    ({ Trial.zero p with
        newtonReduction := w.memory.newtonReduction
        parameter := w.parameter
        newtonLength := w.memory.newtonLength },
      { w.memory with parameter := 0, radius := t.radius })
  else
    let slope := Geometry.inner t.gradient w.step
    let parameter := if w.special then -w.parameter else w.parameter
    -- The energy is that of the step before it was stretched.
    let reduction :=
      if w.special then -(slope + 1 / 2 * t.hessian.quadraticForm w.step)
      else 1 / 2 * (w.energy + w.parameter * w.length * w.length)
    ({ step := overEach w.step t.d
       length := w.length
       slope
       reduction
       newtonReduction := w.memory.newtonReduction
       parameter
       newtonLength := w.memory.newtonLength },
      { w.memory with parameter, radius := t.radius })

end StepTask

/-- The step of the model with gradient `g` and Hessian `h` within `radius`. A memory that is
not fresh belongs to the same model, and is used. -/
def trustStep [Geometry α] (c : Config α) (h : Symmetric α p) (g d : Vector α p) (radius : α)
    (m : StepMemory α p) : Trial α p × StepMemory α p :=
  let t := StepTask.ofModel h g d radius c
  t.finish (t.run (if m.isFresh then .freshStart else .restart) (.start m))

end LeastSquares
