import LeastSquares.Assess.Machine

namespace LeastSquares

variable {α : Type} {p : Nat}

/-- Bounds the moves still to come. A step that was recomputed may resume once at a negated
stage, which is positive from then on. -/
def Node.rank (stage : Int) : Node → Nat
  | retryDecision => if stage < 0 then 21 else 18
  | newModelTried => if stage < 0 then 20 else 17
  | recomputedStep => if stage ≤ 0 then 19 else 16
  | checkOversize => 15
  | compareWithBest => 14
  | restoreBest | beginIteration => 13
  | measureStep => 12
  | classifyDecrease => 11
  | trivialDecrease | nontrivialDecrease => 10
  | fletcherRadius | goodDecrease => 9
  | falseConvergenceTest => 8
  | saveBest | keepRadius => 7
  | resumeAfterConvergence | recordCode => 6
  | convergenceTests => 5
  | singularScreen => 4
  | singularStepLength => 3
  | requestProbe | probed => 2
  | shrink | singularTest => 1
  | done => 0

def Node.longest : Nat := 21

theorem Node.rank_le_longest (stage : Int) (node : Node) : node.rank stage ≤ longest := by
  cases node <;> simp only [Node.rank] <;> (try split) <;> decide

theorem Node.rank_pos (stage : Int) {node : Node} (h : node ≠ .done) : 0 < node.rank stage := by
  cases node with
  | done => exact absurd rfl h
  | _ => simp only [Node.rank]; (try split) <;> decide

/-- The stage can be counted up and negated from here on without leaving the words of 32 bits. -/
def Node.Countable (stage : Int) : Node → Prop
  | retryDecision | newModelTried => -2147483648 < stage ∧ stage < 2147483647
  | recomputedStep => -2147483647 < stage
  | _ => True

theorem stage_succ {s : Int32} (h : s.toInt < 2147483647) : (s + 1).toInt = s.toInt + 1 := by
  have hl := s.le_toInt
  rw [Int32.toInt_add, Int32.toInt_one, Int.bmod_eq_of_le] <;> omega

theorem stage_neg {s : Int32} (h : -2147483648 < s.toInt) : (-s).toInt = -s.toInt := by
  have hu := s.toInt_lt
  rw [Int32.toInt_neg, Int.bmod_eq_of_le] <;> omega

theorem stage_pos_iff {s : Int32} : 0 < s ↔ 0 < s.toInt := Int32.lt_iff_toInt_lt

namespace Pass

variable [Scalar α] (w : Pass α p) (c : Config α) (entry : Verdict)

def left (node : Node) : Nat := node.rank w.search.record.stage.toInt

def Countable (node : Node) : Prop := node.Countable w.search.record.stage.toInt

theorem left_transition (node : Node) (h : node ≠ .done) (hw : w.Countable node) :
    (w.transition c entry node).2.left (w.transition c entry node).1 < w.left node ∧
      (w.transition c entry node).2.Countable (w.transition c entry node).1 := by
  cases node with
  | done => exact absurd rfl h
  | retryDecision =>
    simp only [Countable, Node.Countable] at hw
    simp only [transition, retryDecision]
    split
    · refine ⟨?_, hw⟩
      simp only [left, Node.rank]
      split <;> decide
    · refine ⟨?_, trivial⟩
      simp only [left, Node.rank]
      split <;> decide
  | newModelTried =>
    simp only [Countable, Node.Countable] at hw
    simp only [transition, newModelTried, left, Countable, Node.rank, Node.Countable, note,
      stage_succ hw.2]
    refine ⟨?_, by omega⟩
    split <;> split <;> omega
  | recomputedStep =>
    simp only [Countable, Node.Countable] at hw
    have hn : (-w.search.record.stage).toInt = -w.search.record.stage.toInt :=
      stage_neg (by omega)
    -- A positive stage is kept. Only another one may be negated, which takes that it can be
    -- counted.
    by_cases hp : 0 < w.search.record.stage.toInt
    · have hs : ¬w.search.record.stage.toInt ≤ 0 := by omega
      simp [transition, recomputedStep, stage_pos_iff, left, Countable, Node.rank, Node.Countable,
        hp, hs]
    · have hs : w.search.record.stage.toInt ≤ 0 := by omega
      simp only [transition, recomputedStep, stage_pos_iff, hp, if_false]
      split
      · simp [left, Countable, Node.rank, Node.Countable, hs]
      · split <;> simp [left, Countable, Node.rank, Node.Countable, note, hn, hs, hp] <;> omega
  -- Every other move leads to a node of a lower rank and leaves the stage alone.
  | _ =>
    simp only [transition, beginIteration, checkOversize, shrink, compareWithBest, restoreBest,
      measureStep, classifyDecrease, trivialDecrease, nontrivialDecrease, fletcherRadius,
      falseConvergenceTest, goodDecrease, saveBest, keepRadius, resumeAfterConvergence,
      recordCode, convergenceTests, singularScreen, singularStepLength, requestProbe, probed,
      singularTest, left, Countable]
    (repeat' split) <;> simp [Node.rank, Node.Countable]

/-- Makes no more than the given number of moves, and tells where they end. -/
def run : Nat → Node → Pass α p → Node × Pass α p
  | 0, node, w => (node, w)
  | k + 1, node, w =>
    if node = .done then (.done, w)
    else run k (w.transition c entry node).1 (w.transition c entry node).2

theorem run_of_left_le (k : Nat) (node : Node) (hk : w.left node ≤ k) (hw : w.Countable node) :
    (run c entry k node w).1 = .done := by
  induction k generalizing node w with
  | zero =>
    by_cases h : node = .done
    · exact h
    · exact absurd hk (Nat.not_le.mpr (Node.rank_pos _ h))
  | succ k ih =>
    by_cases h : node = .done
    · simp [run, h]
    · have ht := w.left_transition c entry node h hw
      simp only [run, h, if_false]
      exact ih _ _ (by omega) ht.2

end Pass

def Verdict.entry : Verdict → Node
  | otherOrShorter => .retryDecision
  | otherOrAccept => .newModelTried
  | acceptByGradient | accept => .beginIteration
  | recompute => .recomputedStep
  | probe => .probed
  | xConverged | relFuncConverged | bothConverged | absFuncConverged | singularConverged =>
    .resumeAfterConvergence
  | falseConverged => .falseConvergenceTest
  | badInput => .done

def Search.pass [Scalar α] (s : Search α p) : Pass α p where
  search := { s with record := { s.record with switched := false, restored := false } }
  relief := 1
  current := true
  change := 0
  threshold := 0

/-- Judges the trial. The verdict left in the search says what is to be done next. An assessment
ends within the longest run wherever the stage can be counted, by `Pass.run_of_left_le`. -/
def assess [Scalar α] (c : Config α) (s : Search α p) : Search α p :=
  (Pass.run c s.verdict Node.longest s.verdict.entry s.pass).2.search

end LeastSquares
