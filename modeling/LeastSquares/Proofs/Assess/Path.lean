import LeastSquares.Assess.Run
import Mathlib.Data.List.Perm.Subperm

namespace LeastSquares

variable {α : Type} {p : Nat}

theorem countP_le_of_falling {β : Type} {l : List β} {f : β → Nat}
    (h : l.Pairwise fun a b => f b < f a) (q : β → Bool) (values : List Nat)
    (hq : ∀ a ∈ l, q a = true → f a ∈ values) : l.countP q ≤ values.length := by
  have hnodup : ((l.filter q).map f).Nodup := by
    exact (h.filter q).map f fun _ _ hab => Nat.ne_of_gt hab
  have hsubset : (l.filter q).map f ⊆ values := by
    intro v hv
    obtain ⟨a, ha, rfl⟩ := List.mem_map.mp hv
    exact hq a (List.mem_of_mem_filter ha) (List.of_mem_filter ha)
  rw [List.countP_eq_length_filter, ← List.length_map f]
  exact (List.Nodup.subperm hnodup hsubset).length_le

namespace Node

theorem rank_mem (node : Node) : ∃ high low, ∀ stage, node.rank stage ∈ [high, low] := by
  refine ⟨node.rank (-1), node.rank 1, fun stage => ?_⟩
  cases node with
  | retryDecision | newModelTried | recomputedStep =>
    by_cases h : stage < 0 <;> by_cases h' : stage ≤ 0 <;> simp [rank, h, h']
  | _ => simp [rank]

end Node

namespace Pass

/-- The move that is made here asks the verdict that was set aside where to go on. -/
def Resumes (node : Node) (w : Pass α p) : Bool :=
  node = .recomputedStep && !decide (0 < w.search.record.stage) && !w.search.iterate.oversized

variable [Scalar α] (c : Config α) (entry : Verdict)

/-- The nodes that are come to in so many moves, the first and the last one among them, each
with what is under way there. -/
def path : Nat → Node → Pass α p → List (Node × Pass α p)
  | 0, node, w => [(node, w)]
  | k + 1, node, w =>
    if node = .done then [(node, w)]
    else (node, w) :: path k (w.transition c entry node).1 (w.transition c entry node).2

variable {c entry} {k : Nat} {node : Node} {w : Pass α p}

theorem getLast?_path : (path c entry k node w).getLast? = some (run c entry k node w) := by
  induction k generalizing node w with
  | zero => rfl
  | succ k ih =>
    by_cases h : node = .done
    · simp [path, run, h]
    · simp [path, run, h, List.getLast?_cons, ih]

theorem left_le_of_mem_path (hw : w.Countable node) :
    ∀ x ∈ path c entry k node w, x.2.left x.1 ≤ w.left node := by
  induction k generalizing node w with
  | zero => simp [path]
  | succ k ih =>
    by_cases h : node = .done
    · simp [path, h]
    · obtain ⟨hlt, hnext⟩ := w.left_transition c entry node h hw
      intro x hx
      rw [path, if_neg h, List.mem_cons] at hx
      cases hx with
      | inl hx => simp [hx]
      | inr hx => exact Nat.le_trans (ih hnext x hx) (Nat.le_of_lt hlt)

theorem path_falling (hw : w.Countable node) :
    (path c entry k node w).Pairwise fun x y => y.2.left y.1 < x.2.left x.1 := by
  induction k generalizing node w with
  | zero => simp [path]
  | succ k ih =>
    by_cases h : node = .done
    · simp [path, h]
    · obtain ⟨hlt, hnext⟩ := w.left_transition c entry node h hw
      rw [path, if_neg h, List.pairwise_cons]
      exact ⟨fun x hx => Nat.lt_of_le_of_lt (left_le_of_mem_path hnext x hx) hlt, ih hnext⟩

theorem path_invariant (inv : Node → Pass α p → Prop) (hw : inv node w)
    (hstep : ∀ node' w', (node', w') ∈ path c entry k node w → inv node' w' →
      inv (w'.transition c entry node').1 (w'.transition c entry node').2) :
    ∀ x ∈ path c entry k node w, inv x.1 x.2 := by
  induction k generalizing node w with
  | zero => simpa [path] using hw
  | succ k ih =>
    by_cases h : node = .done
    · simpa [path, h] using h ▸ hw
    · rw [path, if_neg h] at hstep ⊢
      rw [List.forall_mem_cons]
      refine ⟨hw, ih (hstep node w List.mem_cons_self hw) fun node' w' hmem => ?_⟩
      exact hstep node' w' (List.mem_cons_of_mem _ hmem)

theorem countP_path_le (hw : w.Countable node) (place : Node) :
    (path c entry k node w).countP (fun x => x.1 = place) ≤ 2 := by
  obtain ⟨high, low, hrank⟩ := place.rank_mem
  apply countP_le_of_falling (path_falling hw) _ [high, low]
  intro x _ hx
  rw [left, of_decide_eq_true hx]
  exact hrank _

theorem countP_resumes_le (hw : w.Countable node) :
    (path c entry k node w).countP (fun x => Resumes x.1 x.2) ≤ 1 := by
  apply countP_le_of_falling (path_falling hw) _ [19]
  intro x _ hx
  have hx : (x.1 = .recomputedStep ∧ ¬0 < x.2.search.record.stage) ∧
      ¬x.2.search.iterate.oversized = true := by simpa [Resumes] using hx
  have hstage : x.2.search.record.stage.toInt ≤ 0 := by
    have hneg := hx.1.2
    rw [stage_pos_iff] at hneg
    omega
  simp [left, hx.1.1, Node.rank, hstage]

end Pass

namespace Search

variable [Scalar α] (c : Config α) (e : Search α p)

def path : List (Node × Pass α p) := Pass.path c e.verdict Node.longest e.verdict.entry e.pass

theorem run_mem_path :
    Pass.run c e.verdict Node.longest e.verdict.entry e.pass ∈ e.path c :=
  List.mem_of_getLast? Pass.getLast?_path

end Search

/-- Whatever an assessment is entered with, and whatever the numbers are, it comes to its end,
to no node more than twice on the way, and resumes a verdict that was set aside at most once. It
is enough that the stage can be counted on and negated in its words where it is entered at a node
that does so. -/
theorem assess_terminates [Scalar α] (c : Config α) {e : Search α p}
    (he : e.pass.Countable e.verdict.entry) :
    (∃ w, (e.path c).getLast? = some (.done, w) ∧ assess c e = w.search) ∧
    (∀ node, (e.path c).countP (fun x => x.1 = node) ≤ 2) ∧
    (e.path c).countP (fun x => Pass.Resumes x.1 x.2) ≤ 1 := by
  refine ⟨?_, Pass.countP_path_le he, Pass.countP_resumes_le he⟩
  have hdone : (Pass.run c e.verdict Node.longest e.verdict.entry e.pass).1 = .done :=
    e.pass.run_of_left_le c e.verdict Node.longest e.verdict.entry (Node.rank_le_longest _ _) he
  refine ⟨_, ?_, rfl⟩
  rw [Search.path, Pass.getLast?_path, ← hdone]

/-- A trial that is resumed before a model was counted, of an objective that is no number. -/
def Search.uncounted : Search Float 1 where
  verdict := .recompute
  iterate :=
    ⟨.replicate 1 1, .replicate 1 1, 0 / 0, 0 / 0, .replicate 1 1, 1, .gaussNewton, 7, false⟩
  trial := .zero 1
  record := { Record.new 1 with resume := .otherOrShorter, bestModel := .augmented, growth := -9 }

/-- The assessment goes round once, and comes to the node that resumes the trial a second time. -/
theorem assess_terminates_uncounted :
    let e : Search Float 1 := .uncounted
    let c : Config Float := .default
    e.pass.Countable e.verdict.entry ∧
    ((e.path c).take 5).map Prod.fst =
      [.recomputedStep, .retryDecision, .newModelTried, .recomputedStep, .checkOversize] ∧
    (∃ w, (e.path c).getLast? = some (.done, w) ∧ assess c e = w.search) ∧
    (∀ node, (e.path c).countP (fun x => x.1 = node) ≤ 2) ∧
    (e.path c).countP (fun x => Pass.Resumes x.1 x.2) ≤ 1 := by
  intro e c
  have he : e.pass.Countable e.verdict.entry := by
    change -2147483647 < (0 : Int32).toInt
    decide
  have hround : ((e.path c).take 5).map Prod.fst =
      [.recomputedStep, .retryDecision, .newModelTried, .recomputedStep, .checkOversize] := by
    decide +kernel
  exact ⟨he, hround, assess_terminates c he⟩

end LeastSquares
