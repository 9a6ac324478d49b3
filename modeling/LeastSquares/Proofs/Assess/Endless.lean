import LeastSquares.Proofs.Assess.Judgement

namespace LeastSquares

variable {α : Type} {p : Nat}

/-- The nodes that set the stage. Only between these can an assessment go round. -/
def Node.Stages : Node → Prop
  | .retryDecision | .newModelTried | .recomputedStep => True
  | _ => False

theorem Node.rank_of_not_stages {stage : Int} {node : Node} (h : ¬node.Stages) :
    node.rank stage ≤ 15 := by
  cases node with
  | retryDecision | newModelTried | recomputedStep => exact absurd trivial h
  | _ => simp only [Node.rank]; decide

theorem Node.countable_of_not_stages {stage : Int} {node : Node} (h : ¬node.Stages) :
    node.Countable stage := by
  cases node with
  | retryDecision | newModelTried | recomputedStep => exact absurd trivial h
  | _ => trivial

namespace Pass

/-- A stage that is counted beyond its words is taken for one that is to be resumed, for ever. -/
def Endless (node : Node) (w : Pass α p) : Prop :=
  w.search.verdict.code ≤ 5 ∧ w.search.iterate.oversized = false ∧
    (w.search.record.resume = .otherOrShorter ∧
        w.search.iterate.model ≠ w.search.record.bestModel ∨
      w.search.record.resume = .otherOrAccept) ∧
    match node with
    | .retryDecision => w.search.iterate.model ≠ w.search.record.bestModel ∧
        (w.search.record.stage = Int32.minValue ∨ w.search.record.stage = Int32.maxValue)
    | .newModelTried =>
        w.search.record.stage = Int32.minValue ∨ w.search.record.stage = Int32.maxValue
    | .recomputedStep =>
        w.search.record.stage = Int32.minValue ∨ w.search.record.stage = Int32.minValue + 1
    | _ => False

variable {c : Config α} {v : Verdict} {node : Node} {w : Pass α p}

theorem endless_recomputedStep (hw : Endless .recomputedStep w) :
    Endless w.recomputedStep.1 w.recomputedStep.2 := by
  obtain ⟨hcode, hover, hresume, hstage⟩ := hw
  have hneg : ¬0 < w.search.record.stage := by
    rcases hstage with h | h <;> rw [h] <;> decide
  have hnext : -w.search.record.stage = Int32.minValue ∨
      -w.search.record.stage = Int32.maxValue := by
    refine hstage.imp (fun h => ?_) fun h => ?_
    · rw [h]
      decide
    · rw [h]
      decide
  have hfits : ¬w.search.iterate.oversized = true := by simp [hover]
  rcases hresume with ⟨hresume, hmodel⟩ | hresume
  · rw [recomputedStep_resumed hneg hfits _ hresume]
    exact ⟨hcode, hover, .inl ⟨hresume, hmodel⟩, hmodel, hnext⟩
  · rw [recomputedStep_resumed hneg hfits _ hresume]
    exact ⟨hcode, hover, .inr hresume, hnext⟩

variable [Scalar α]

theorem endless_transition (hw : Endless node w) :
    Endless (w.transition c v node).1 (w.transition c v node).2 := by
  cases node with
  | retryDecision =>
    obtain ⟨hcode, hover, hresume, hmodel, hstage⟩ := hw
    rw [transition, retryDecision, if_pos hmodel]
    exact ⟨hcode, hover, hresume, hstage⟩
  | newModelTried =>
    obtain ⟨hcode, hover, hresume, hstage⟩ := hw
    refine ⟨hcode, hover, hresume, ?_⟩
    change w.search.record.stage + 1 = _ ∨ w.search.record.stage + 1 = _
    rcases hstage with h | h
    · exact .inr (by rw [h])
    · exact .inl (by rw [h]; decide)
  | recomputedStep => exact endless_recomputedStep hw
  | _ => exact hw.2.2.2.elim

/-- So many moves are the last, or there is no end to them. -/
def Leads (c : Config α) (v : Verdict) (k : Nat) (node : Node) (w : Pass α p) : Prop :=
  (run c v k node w).1 = .done ∨ Endless (run c v k node w).1 (run c v k node w).2

theorem leads_of_not_stages {k : Nat} (hnode : ¬node.Stages) (hk : 15 ≤ k) :
    Leads c v k node w :=
  .inl (w.run_of_left_le c v k node (Nat.le_trans (Node.rank_of_not_stages hnode) hk)
    (Node.countable_of_not_stages hnode))

theorem leads_of_endless {k : Nat} (hw : Endless node w) : Leads c v k node w :=
  .inr (run_invariant endless_transition k hw)

theorem leads_succ {k : Nat} (hnode : node ≠ .done)
    (h : Leads c v k (w.transition c v node).1 (w.transition c v node).2) :
    Leads c v (k + 1) node w := by
  unfold Leads
  rw [run, if_neg hnode]
  exact h

theorem leads_recomputedStep {k : Nat} (hk : 19 ≤ k) (hcode : w.search.verdict.code ≤ 5) :
    Leads c v k .recomputedStep w := by
  by_cases hcount : w.Countable .recomputedStep
  · refine .inl (w.run_of_left_le c v k .recomputedStep (Nat.le_trans ?_ hk) hcount)
    simp only [left, Node.rank]
    split <;> decide
  have hstage : w.search.record.stage = Int32.minValue ∨
      w.search.record.stage = Int32.minValue + 1 := by
    have hleast := w.search.record.stage.le_toInt
    have hcount : ¬-2147483647 < w.search.record.stage.toInt := hcount
    have hmin : Int32.minValue.toInt = -2147483648 := by decide
    have hnext : (Int32.minValue + 1).toInt = -2147483647 := by decide
    rw [← Int32.toInt_inj, ← Int32.toInt_inj, hmin, hnext]
    omega
  have hneg : ¬0 < w.search.record.stage := by
    rcases hstage with h | h <;> rw [h] <;> decide
  obtain ⟨k, rfl⟩ := Nat.exists_eq_add_of_le' (Nat.le_trans (by decide : 2 ≤ 19) hk)
  by_cases hover : w.search.iterate.oversized = true
  · refine leads_succ (by decide) (leads_of_not_stages ?_ (by omega))
    rw [transition, recomputedStep, if_neg hneg, if_pos hover]
    exact id
  have hfits : w.search.iterate.oversized = false := Bool.eq_false_iff.mpr hover
  have hstep := recomputedStep_resumed (w := w) hneg hover _ rfl
  -- The two verdicts that ask for the other model come back here; the others never set the stage
  -- again.
  cases hresume : w.search.record.resume
  case otherOrAccept => exact leads_of_endless ⟨hcode, hfits, .inr hresume, hstage⟩
  case otherOrShorter =>
    by_cases hmodel : w.search.iterate.model = w.search.record.bestModel
    · rw [hresume] at hstep
      refine leads_succ (by decide) ?_
      rw [transition, hstep]
      change Leads c v _ .retryDecision _
      refine leads_succ (by decide) (leads_of_not_stages ?_ (by omega))
      rw [transition, retryDecision, if_neg fun h => h hmodel]
      exact id
    · exact leads_of_endless ⟨hcode, hfits, .inl ⟨hresume, hmodel⟩, hstage⟩
  all_goals
    rw [hresume] at hstep
    refine leads_succ (by decide) (leads_of_not_stages ?_ (by omega))
    rw [transition, hstep]
    exact id

theorem leads_newModelTried {k : Nat} (hk : 20 ≤ k) (hcode : w.search.verdict.code ≤ 5) :
    Leads c v k .newModelTried w := by
  obtain ⟨k, rfl⟩ := Nat.exists_eq_add_of_le' (Nat.le_trans (by decide : 1 ≤ 20) hk)
  exact leads_succ (by decide) (leads_recomputedStep (by omega) hcode)

end Pass

theorem Search.leads [Scalar α] (e : Search α p) (c : Config α) :
    Pass.Leads c e.verdict Node.longest e.verdict.entry e.pass := by
  have hverdict : e.pass.search.verdict = e.verdict := rfl
  generalize e.pass = w at hverdict
  cases he : e.verdict <;> rw [he] at hverdict
  case otherOrShorter =>
    have hcode : w.search.verdict.code ≤ 5 := by
      rw [hverdict]
      decide
    change Pass.Leads c _ (20 + 1) .retryDecision w
    refine Pass.leads_succ (by decide) ?_
    rw [Pass.transition, Pass.retryDecision]
    split
    · exact Pass.leads_newModelTried (by decide) hcode
    · exact Pass.leads_of_not_stages id (by decide)
  case otherOrAccept => exact Pass.leads_newModelTried (by decide) (by rw [hverdict]; decide)
  case recompute => exact Pass.leads_recomputedStep (by decide) (by rw [hverdict]; decide)
  all_goals exact Pass.leads_of_not_stages id (by decide)

end LeastSquares
