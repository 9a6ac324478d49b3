import LeastSquares.Proofs.Assess.Depth

namespace LeastSquares

variable {α : Type} [Scalar α] {p : Nat} {c : Config α} {e s : Search α p} {l : List (Search α p)}

namespace Search

/-- The assessment of `s` is the next one after that of `e`. Unless it begins anew, it takes
over the verdict and all that was recorded. -/
def Follows (c : Config α) (e s : Search α p) : Prop :=
  s.Begins ∨ s.verdict = (assess c e).verdict ∧ s.record = (assess c e).record ∧
    s.iterate.stageLimit = (assess c e).iterate.stageLimit

/-- Assessments one after the other, the latest one first, of which only the oldest may begin. -/
structure Span (c : Config α) (l : List (Search α p)) : Prop where
  counted : ∀ e ∈ l, e.Counted
  chain : l.IsChain fun s e => e.Follows c s
  begins : ∀ e ∈ l.dropLast, ¬e.Begins

theorem assess_stageLimit (c : Config α) (e : Search α p) :
    (assess c e).iterate.stageLimit = e.iterate.stageLimit := by
  obtain ⟨x, f, model, h⟩ := assess_iterate c e
  rw [h]

theorem counted_of_chain (htimely : ∀ e ∈ l, e.Timely)
    (hchain : l.IsChain fun s e => e.Follows c s) (hfirst : ∀ e ∈ l.getLast?, e.Begins) :
    ∀ e ∈ l, e.Counted := by
  induction l with
  | nil => exact fun _ h => absurd h List.not_mem_nil
  | cons s l ih =>
    cases l with
    | nil =>
      have hbegins := hfirst s rfl
      exact List.forall_mem_singleton.mpr ⟨htimely s List.mem_cons_self, fun h => absurd hbegins h⟩
    | cons e l =>
      obtain ⟨hfollows, hchain⟩ := List.isChain_cons_cons.mp hchain
      have hcounted := ih (fun e he => htimely e (List.mem_cons_of_mem _ he)) hchain
        (List.getLast?_cons_cons ▸ hfirst)
      refine List.forall_mem_cons.mpr ⟨⟨htimely s List.mem_cons_self, fun hbegins => ?_⟩, hcounted⟩
      obtain ⟨-, hrecord, hlimit⟩ := hfollows.resolve_left hbegins
      exact (hcounted e List.mem_cons_self).due_le.2.congr (congrArg Record.stage hrecord) hlimit

namespace Span

theorem tail (h : Span c (s :: l)) : Span c l where
  counted e he := h.counted e (List.mem_cons_of_mem _ he)
  chain := h.chain.tail
  begins e he := by
    cases l with
    | nil => exact absurd he List.not_mem_nil
    | cons e' l => exact h.begins e (List.mem_cons_of_mem _ he)

theorem follows (h : Span c (s :: e :: l)) : ¬s.Begins ∧ s.verdict = (assess c e).verdict ∧
    s.depth = (assess c e).depth ∧ s.iterate.stageLimit = e.iterate.stageLimit := by
  have hbegins := h.begins s List.mem_cons_self
  obtain ⟨hverdict, hrecord, hlimit⟩ :=
    (List.isChain_cons_cons.mp h.chain).1.resolve_left hbegins
  exact ⟨hbegins, hverdict, depth_congr (congrArg Record.stage hrecord),
    hlimit.trans (assess_stageLimit c e)⟩

theorem stageLimit_eq (h : Span c (s :: l)) :
    ∀ e ∈ s :: l, e.iterate.stageLimit = s.iterate.stageLimit := by
  induction l generalizing s with
  | nil => exact List.forall_mem_singleton.mpr rfl
  | cons e l ih =>
    obtain ⟨-, -, -, hlimit⟩ := h.follows
    refine List.forall_mem_cons.mpr ⟨rfl, fun e' he' => ?_⟩
    exact (ih h.tail e' he').trans hlimit.symm

theorem deepest (h : Span c (s :: l)) :
    ∀ e ∈ s :: l, (assess c e).depth ≤ (assess c s).depth := by
  induction l generalizing s with
  | nil => exact List.forall_mem_singleton.mpr le_rfl
  | cons e l ih =>
    obtain ⟨hbegins, -, hdepth, -⟩ := h.follows
    have hs := h.counted s List.mem_cons_self
    refine List.forall_mem_cons.mpr ⟨le_rfl, fun e' he' => (ih h.tail e' he').trans ?_⟩
    rw [← hdepth]
    exact (hs.timely.depth_le_due hbegins).trans hs.due_le.1

theorem grows (h : Span c l) : l.Pairwise fun s e => (assess c e).depth ≤ s.depth := by
  induction l with
  | nil => exact .nil
  | cons s l ih =>
    refine List.pairwise_cons.mpr ⟨fun e he => ?_, ih h.tail⟩
    cases l with
    | nil => exact absurd he List.not_mem_nil
    | cons e' l => exact (h.tail.deepest e he).trans_eq h.follows.2.2.1.symm

theorem asks_once (h : Span c (s :: l)) :
    (s :: l).countP (fun e => (assess c e).verdict.switches) ≤ 1 ∧
      ((s :: l).countP (fun e => (assess c e).verdict.switches) = 1 →
        (assess c s).verdict.switches = true ∨ 2 ≤ (assess c s).depth) := by
  induction l generalizing s with
  | nil =>
    rw [List.countP_singleton]
    split
    · next hs => exact ⟨le_rfl, fun _ => .inl hs⟩
    · exact ⟨Nat.zero_le 1, nofun⟩
  | cons e l ih =>
    obtain ⟨hle, hone⟩ := ih h.tail
    obtain ⟨hbegins, hverdict, hdepth, -⟩ := h.follows
    have hs := h.counted s List.mem_cons_self
    have hdeep := hs.due_le (c := c)
    rw [List.countP_cons]
    -- If none of the earlier trials asked, the latest one may; otherwise two models are counted and
    -- it does not.
    by_cases hzero : (e :: l).countP (fun e => (assess c e).verdict.switches) = 0
    · rw [hzero]
      split
      · next hs => exact ⟨le_rfl, fun _ => .inl hs⟩
      · exact ⟨Nat.zero_le 1, nofun⟩
    · have hcount : (e :: l).countP (fun e => (assess c e).verdict.switches) = 1 :=
        le_antisymm hle (Nat.one_le_iff_ne_zero.mpr hzero)
      have htwo : 2 ≤ (assess c s).depth := by
        refine le_trans ?_ hdeep.1
        rcases hone hcount with hother | hdeeper
        · rw [← hverdict] at hother
          exact (due_of_switches hother).ge
        · exact (hdeeper.trans_eq hdepth.symm).trans (hs.timely.depth_le_due hbegins)
      have hsilent : ¬(assess c s).verdict.switches = true := fun hv =>
        absurd (htwo.trans_eq (hs.timely.answered.of_switches hv).1) (by decide)
      rw [hcount, if_neg hsilent]
      exact ⟨le_rfl, fun _ => .inr htwo⟩

theorem asks_below (h : Span c l) : ∀ e ∈ l,
    (l.countP (fun e => (assess c e).verdict.switches) : Int) + 1 ≤ e.iterate.stageLimit.toInt := by
  cases l with
  | nil => exact fun _ h => absurd h List.not_mem_nil
  | cons s l =>
    intro e he
    have hlimit := h.stageLimit_eq
    have hle := h.asks_once.1
    rcases Nat.le_one_iff_eq_zero_or_eq_one.mp hle with hcount | hcount
    · rw [hcount]
      rcases (h.counted e he).timely.limit with hk | hk <;> rw [hk] <;> decide
    · have hpos : 0 < (s :: l).countP fun e => (assess c e).verdict.switches :=
        hcount.symm ▸ Nat.one_pos
      obtain ⟨q, hq, hv⟩ := List.countP_pos_iff.mp hpos
      have htwo := ((h.counted q hq).timely.answered.of_switches hv).2
      rw [assess_stageLimit, hlimit q hq, ← hlimit e he] at htwo
      rw [hcount, htwo]
      decide

end Span

end Search

end LeastSquares
