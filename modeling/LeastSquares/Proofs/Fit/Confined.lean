import LeastSquares.Proofs.Fit.Halted
import LeastSquares.Proofs.Fit.Origin

namespace LeastSquares

variable {σ : Type} {n p : Nat}

/-- A property of the state of the problem that is kept by every call at a point of the box. -/
structure Problem.Keeps (P : Problem ℝ σ p) (box : Vector ℝ p → Prop) (Q : σ → Prop) : Prop where
  evaluate : ∀ x mode state, box x → Q state → Q (P.evaluate x mode state).2
  stopRequested : ∀ k x state, box x → Q state → Q (P.stopRequested k x state).2

/-- The same problem with a list of all points it was called at. -/
def Problem.traced (P : Problem ℝ σ p) : Problem ℝ (σ × List (Vector ℝ p)) p where
  evaluate x mode state :=
    let (e, state') := P.evaluate x mode state.1
    (e, state', x :: state.2)
  stopRequested k x state :=
    let (stop, state') := P.stopRequested k x state.1
    (stop, state', x :: state.2)

theorem Problem.keeps_traced (P : Problem ℝ σ p) (box : Vector ℝ p → Prop) :
    P.traced.Keeps box fun state => ∀ x ∈ state.2, box x :=
  ⟨fun _ _ _ hx hstate => List.forall_mem_cons.mpr ⟨hx, hstate⟩,
    fun _ _ _ hx hstate => List.forall_mem_cons.mpr ⟨hx, hstate⟩⟩

/-- The points that a run goes on from are in the box, and so was every call that it made. -/
structure Run.Confined (box : Vector ℝ p → Prop) (Q : σ → Prop) (r : Run ℝ σ n p) : Prop where
  base : box r.base.x
  best : box r.best.x
  state : Q r.account.state

structure Head.Confined (box : Vector ℝ p → Prop) (Q : σ → Prop) (h : Head ℝ σ n p) : Prop where
  run : h.run.Confined box Q
  place : box h.run.search.iterate.x₀

namespace Setup

variable (s : Setup ℝ σ p) {h : Head ℝ σ n p}

def Within (x : Vector ℝ p) : Prop := ∀ b, s.bounds = some b → b.Contains x

theorem target_eq_project {b : Bounds ℝ p} (hb : s.bounds = some b) :
    s.target h = b.project (h.run.search.iterate.x₀ + (s.unclamped h).1.step) := by
  unfold target clamped
  rw [hb, Option.bind_some]
  unfold Bounds.constrain?
  dsimp only
  split
  · next hsame =>
    rw [Option.getD_none, ← vector_add_sub_cancel h.run.search.iterate.x₀ (b.project _),
      eq_of_beq hsame]
  · rw [Option.getD_some, (rescored_length _ _ _ _ _).1, vector_add_sub_cancel]

theorem target_within (hb : ∀ b, s.bounds = some b → b.Ordered) (h : Head ℝ σ n p) :
    s.Within (s.target h) := by
  intro b hbounds
  rw [s.target_eq_project hbounds]
  exact Bounds.project_contains (hb b hbounds) _

theorem judged_best_x : (s.judged h).best.x = s.target h ∨ (s.judged h).best = h.run.best := by
  cases hv : s.found h with
  | none => exact .inr (s.judged_of_not_found hv).2
  | some v =>
    obtain ⟨-, ⟨-, hbest⟩ | ⟨-, hbest⟩⟩ := s.judged_of_found hv
    · rw [hbest]
      exact .inl rfl
    · exact .inr hbest

section

variable {box : Vector ℝ p → Prop} {Q : σ → Prop} {l : List (Head ℝ σ n p)} {r r₀ : Run ℝ σ n p}
  {o : Outcome} (hbox : ∀ h : Head ℝ σ n p, box (s.target h))
include hbox

theorem judged_within (hs : h.Steady) (ho : ¬h.run.search.Opens → s.Origin h l)
    (hplace : box h.run.search.iterate.x₀) : box (s.judged h).search.iterate.x := by
  obtain ⟨t, -, -, -, hshrunk | ⟨hframed, ⟨hmoved, -⟩ | hstays, -⟩⟩ := (s.judged_judged hs).1
  · have hsame : (s.judged h).search.iterate.x = s.target h := by
      have hiterate : (s.judged h).search.iterate = (s.scored h).iterate := hshrunk.iterate
      rw [hiterate, scored_eq]
    rw [hsame]
    exact hbox h
  · have hweighed : s.Weighed h := hframed.measured
    obtain ⟨q, -, -, -, hsame⟩ := s.taken_step ho hweighed hmoved
    have hsame : (s.judged h).search.iterate.x = s.target q := hsame
    rw [hsame]
    exact hbox q
  · have hsame : (s.judged h).search.iterate.x = h.run.search.iterate.x₀ := by
      have hstayed : (s.judged h).search.iterate.x = (s.scored h).iterate.x₀ := hstays.x
      rw [hstayed, scored_eq]
    rw [hsame]
    exact hplace

theorem restored_within (ho : ¬h.run.search.Opens → s.Origin h l) (hopens : ¬h.run.search.Opens)
    (hgain : h.run.search.record.bestF < h.run.search.iterate.f₀) :
    box (h.run.search.iterate.x₀ + h.run.search.record.bestStep) := by
  obtain ⟨q, -, halong, hstep⟩ := (ho hopens).step (not_le.mpr hgain)
  rw [hstep, ← halong.x₀]
  exact hbox q

variable (hQ : s.problem.Keeps box Q)
include hQ

theorem judged_confined (hh : h.Confined box Q) : (s.judged h).Confined box Q := by
  refine ⟨?_, ?_, ?_⟩
  · rw [judged_base]
    exact hh.run.base
  · rcases s.judged_best_x (h := h) with hnew | hold
    · rw [hnew]
      exact hbox h
    · rw [hold]
      exact hh.run.best
  · rw [judged_account]
    exact hQ.evaluate _ _ _ (hbox h) hh.run.state

omit hbox in
theorem followed_state (hx : box (s.judged h).search.iterate.x)
    (hstate : Q (s.judged h).account.state) : Q (s.followed h).1.account.state := by
  have haccept : Q (s.accept h.gradient h.normal ((s.tried h).hessian h.normal)
      (s.judged h)).1.account.state := by
    have hanswer := hQ.evaluate _ .jacobian _ hx hstate
    have hasked : (s.problem.countedLinearization n (s.judged h).search.iterate.x
        (s.judged h).account).2.state = (s.problem.evaluate (s.judged h).search.iterate.x .jacobian
          (s.judged h).account.state).2 := rfl
    rw [← hasked] at hanswer
    unfold accept
    dsimp only
    generalize s.problem.countedLinearization n (s.judged h).search.iterate.x
      (s.judged h).account = answer at hanswer ⊢
    obtain ⟨answer, account⟩ := answer
    cases answer with
    | error e => exact hanswer
    | ok answer =>
      obtain ⟨v, j⟩ := answer
      exact hQ.stopRequested _ _ _ hx hanswer
  unfold followed follow
  split
  · exact hstate
  · exact hstate
  · exact hstate
  · exact haccept
  · exact haccept
  · exact hstate

section

variable (hs : h.Steady) (ho : ¬h.run.search.Opens → s.Origin h l) (hh : h.Confined box Q)
include hs ho hh

theorem followed_confined_state : Q (s.followed h).1.account.state :=
  s.followed_state hQ (s.judged_within hbox hs ho hh.place) (s.judged_confined hbox hQ hh).state

theorem passed_confined {next : Next} (hr : s.followed h = (r, next)) (hpassed : s.Passed h r) :
    r.Confined box Q ∧ box r.search.iterate.x := by
  have hx := s.judged_within hbox hs ho hh.place
  have hbest := (s.judged_confined hbox hQ hh).best
  have hstate := s.followed_confined_state hbox hQ hs ho hh
  rw [hr] at hstate
  obtain ⟨-, v, j, a, state, -, rfl⟩ := hpassed
  exact ⟨⟨hx, hbest, hstate⟩, hx⟩

theorem confined_again (hr : s.followed h = (r, .again)) :
    Head.Confined box Q ⟨h.gradient, h.normal, r⟩ := by
  have hjudged := s.judged_confined hbox hQ hh
  have hstate := s.followed_confined_state hbox hQ hs ho hh
  rw [hr] at hstate
  have hplace : box r.search.iterate.x₀ := by
    rw [← (s.alongside_again hs hr).x₀]
    exact hh.place
  obtain ⟨_, _, _, _, _, _, _, rfl⟩ := s.again_eq h hr
  exact ⟨⟨hjudged.base, hjudged.best, hstate⟩, hplace⟩

theorem ends_confined (hend : s.Ends h r o) : r.Confined box Q ∧ box r.search.iterate.x := by
  cases hend with
  | limit hcontinues =>
    unfold giveUp
    dsimp only
    rw [tried_eq]
    split
    · exact ⟨⟨hh.run.base, hh.run.best, hh.run.state⟩, hh.run.best⟩
    · exact ⟨⟨hh.run.base, hh.run.best, hh.run.state⟩, hh.place⟩
  | exhausted _ hr _ => exact s.passed_confined hbox hQ hs ho hh hr (s.followed_accepted h hr)
  | finished _ hr =>
    rcases s.followed_finished h hr with ⟨hpassed, -⟩ | ⟨-, rfl, -⟩
    · exact s.passed_confined hbox hQ hs ho hh hr hpassed
    · exact ⟨s.judged_confined hbox hQ hh, s.judged_within hbox hs ho hh.place⟩

end

omit hbox hQ in
theorem confined_opening (hr : r.Confined box Q) (hx : box r.search.iterate.x) :
    (s.opening r).Confined box Q := by
  obtain ⟨_, _, _, _, _, _, -, heq⟩ := s.opening_run r
  refine ⟨?_, ?_⟩ <;> rw [heq]
  · exact ⟨hr.base, hr.best, hr.state⟩
  · exact hx

theorem passes_confined (hr₀ : r₀.Confined box Q) (hx : box r₀.search.iterate.x)
    (hstart : r₀.search.verdict = .accept) (hl : s.Passes r₀ l) :
    ∀ h ∈ l, h.Confined box Q := by
  have hsteady := s.passes_steady hstart hl
  refine s.passes_invariant hl (s.confined_opening hr₀ hx) ?again ?next
  case again =>
    intro h _ r hl' hmem hh _ hr
    exact s.confined_again hbox hQ (hsteady h hmem) (s.passes_origin hstart hl') hh hr
  case next =>
    intro h _ r hl' hmem hh _ hr
    obtain ⟨hconfined, hx⟩ := s.passed_confined hbox hQ (hsteady h hmem)
      (s.passes_origin hstart hl') hh hr (s.followed_accepted h hr)
    exact s.confined_opening hconfined hx

omit hbox in
theorem finish_confined (hr : r.Confined box Q) (hx : box r.search.iterate.x) :
    box (s.finish r o).1.params ∧ Q (s.finalPoint r).1.account.state := by
  have hparams : (s.finish r o).1.params = (s.finalPoint r).2.1 := rfl
  have hasked := hQ.evaluate _ .residuals _ hx hr.state
  rw [hparams]
  unfold finalPoint
  dsimp only
  split
  · exact ⟨hx, hr.state⟩
  · split
    · exact ⟨hx, hasked⟩
    · exact ⟨hr.base, hasked⟩

end

/-- A run whose points are all in the box. A property of the state of the problem that is kept
inside the box holds at the end, so no call was made outside, but for what a covariance asks. -/
structure Stays (box : Vector ℝ p → Prop) (r₀ : Run ℝ σ n p) (l : List (Head ℝ σ n p))
    (r : Run ℝ σ n p) : Prop where
  start : ∀ q ∈ l, box q.run.search.iterate.x₀
  trial : ∀ q ∈ l, box (s.target q)
  judged : ∀ q ∈ l, box (s.judged q).search.iterate.x
  restored : ∀ q ∈ l, ¬q.run.search.Opens →
    q.run.search.record.bestF < q.run.search.iterate.f₀ →
    box (q.run.search.iterate.x₀ + q.run.search.record.bestStep)
  calls : ∀ Q, s.problem.Keeps box Q → Q r₀.account.state → Q (s.finalPoint r).1.account.state

theorem ran_stays {box : Vector ℝ p → Prop} (hbox : ∀ h : Head ℝ σ n p, box (s.target h))
    {l : List (Head ℝ σ n p)} {r₀ r : Run ℝ σ n p} {o : Outcome}
    (hbase : box r₀.base.x) (hbest : box r₀.best.x) (hx : box r₀.search.iterate.x)
    (hstart : r₀.search.verdict = .accept) (hran : s.Ran r₀ l r o) :
    s.Stays box r₀ l r ∧ box (s.finish r o).1.params := by
  obtain ⟨hl, h, hh, hend⟩ := hran
  have hsteady := s.passes_steady hstart hl
  obtain ⟨l', rfl⟩ : ∃ l', l = h :: l' := List.head?_eq_some_iff.mp hh
  have horigin (q) (hq : q ∈ h :: l') : ∃ l', ¬q.run.search.Opens → s.Origin q l' := by
    obtain ⟨l₁, l₂, hsplit⟩ := List.append_of_mem hq
    have hsuffix : q :: l₂ <:+ h :: l' := ⟨l₁, hsplit.symm⟩
    exact ⟨l₂, s.passes_origin hstart (s.passes_suffix hl hsuffix)⟩
  have hconfined {Q : σ → Prop} (hQ : s.problem.Keeps box Q) (hstate : Q r₀.account.state) :
      ∀ q ∈ h :: l', q.Confined box Q :=
    s.passes_confined hbox hQ ⟨hbase, hbest, hstate⟩ hx hstart hl
  have hend {Q : σ → Prop} (hQ : s.problem.Keeps box Q) (hstate : Q r₀.account.state) :
      box (s.finish r o).1.params ∧ Q (s.finalPoint r).1.account.state := by
    obtain ⟨hr, hx⟩ := s.ends_confined hbox hQ (hsteady h List.mem_cons_self)
      (s.passes_origin hstart hl) (hconfined hQ hstate h List.mem_cons_self) hend
    exact s.finish_confined hQ hr hx
  have htrivial : s.problem.Keeps box fun _ => True :=
    ⟨fun _ _ _ _ _ => trivial, fun _ _ _ _ _ => trivial⟩
  have hplace := hconfined htrivial trivial
  refine ⟨⟨fun q hq => (hplace q hq).place, fun q _ => hbox q, fun q hq => ?_,
    fun q hq hopens hgain => ?_, fun Q hQ hstate => (hend hQ hstate).2⟩,
    (hend htrivial trivial).1⟩
  · obtain ⟨l', ho⟩ := horigin q hq
    exact s.judged_within hbox (hsteady q hq) ho (hplace q hq).place
  · obtain ⟨l', ho⟩ := horigin q hq
    exact s.restored_within hbox ho hopens hgain

end Setup

variable {P : Problem ℝ σ p} {initial : Vector ℝ p} {lower upper : Option (Array (Scalar.Side ℝ))}
  {c : Config ℝ} {state : σ} {bounds : Option (Bounds ℝ p)}

/-- Nothing is done outside the bounds: neither is a point of the run beyond them, nor what is
reported, nor any call to the problem, but for those that a covariance is computed with. -/
theorem fit_respects (h : checkInput initial lower upper c = .ok bounds) :
    Bounds.Respects lower upper ((bounds.map (·.project initial)).getD initial) ∧
    (∀ report, (fit P initial lower upper c state).1 = .ok report →
      Bounds.Respects lower upper report.params ∧
      ∃ (n : Nat) (s : Setup ℝ σ p) (r₀ : Run ℝ σ n p) (l : List (Head ℝ σ n p))
        (r : Run ℝ σ n p) (o : Outcome), Begun P initial lower upper c state s r₀ ∧
          s.Ran r₀ l r o ∧ report = (s.finish r o).1 ∧
          s.Stays (Bounds.Respects lower upper) r₀ l r) ∧
    (c.covariance = none → ∀ Q, P.Keeps (Bounds.Respects lower upper) Q → Q state →
      Q (fit P initial lower upper c state).2) := by
  have hmake := (checkInput_spec h).2.2
  have hordered (b : Bounds ℝ p) (hb : bounds = some b) : b.Ordered := by
    rw [hb] at hmake
    exact Bounds.make_ordered hmake
  have hinitial : Bounds.Respects lower upper
      ((bounds.map (·.project initial)).getD initial) := by
    refine Bounds.respects_of_make hmake fun b hb => ?_
    rw [hb]
    exact Bounds.project_contains (hordered b hb) initial
  have hstays {n : Nat} {s : Setup ℝ σ p} {r₀ : Run ℝ σ n p} {l : List (Head ℝ σ n p)}
      {r : Run ℝ σ n p} {o : Outcome} (hbegun : Begun P initial lower upper c state s r₀)
      (hran : s.Ran r₀ l r o) : s.Stays (Bounds.Respects lower upper) r₀ l r ∧
        Bounds.Respects lower upper (s.finish r o).1.params := by
    have hbounds : s.bounds = bounds := Except.ok.inj (hbegun.input.symm.trans h)
    have hbox (q : Head ℝ σ n p) : Bounds.Respects lower upper (s.target q) := by
      refine Bounds.respects_of_make hmake fun b hb => ?_
      rw [← hbounds] at hb
      exact s.target_within (fun b hb => hordered b (hbounds.symm.trans hb)) q b hb
    obtain ⟨e, l', state', -, hfirst, rfl⟩ := hbegun.first
    obtain ⟨hx, -⟩ := firstPoint_spec hfirst
    have hx : Bounds.Respects lower upper l'.x := by
      rw [hx, hbounds]
      exact hinitial
    exact s.ran_stays hbox hx hx hx rfl hran
  refine ⟨hinitial, fun report hreport => ?_, fun hcovariance Q hQ hstate => ?_⟩
  · obtain ⟨n, s, r₀, l, r, o, hbegun, hran, rfl⟩ := fit_ran hreport
    obtain ⟨hstay, hparams⟩ := hstays hbegun hran
    exact ⟨hparams, n, s, r₀, l, r, o, hbegun, hran, rfl, hstay⟩
  · have hasked := hQ.evaluate _ .jacobian _ hinitial hstate
    obtain ⟨e, he⟩ | ⟨n, r₀, hbegun, hr₀⟩ := fit_begun (P := P) h state
    · rw [he]
      exact hasked
    · obtain ⟨trials, hran⟩ := hbegun.ran
      rw [← hr₀] at hasked
      have hend := (hstays hbegun hran).1.calls Q hQ hasked
      rw [← Setup.finish_state _ hcovariance] at hend
      rw [hbegun.fit_finish]
      exact hend

theorem fit_respects_corner :
    checkInput #v[0, 0] Corner.lower Corner.upper Corner.config = .ok (some Corner.box) ∧
    Corner.config.covariance = none ∧
    ∃ report,
      (fit Corner.problem.traced #v[0, 0] Corner.lower Corner.upper Corner.config ((), [])).1 =
        .ok report ∧
      Bounds.Respects Corner.lower Corner.upper report.params ∧
      ∀ x ∈ (fit Corner.problem.traced #v[0, 0] Corner.lower Corner.upper Corner.config
          ((), [])).2.2,
        Bounds.Respects Corner.lower Corner.upper x := by
  obtain ⟨e, l, state, heval, hfirst, -⟩ := Corner.begun.first
  have htraced : (Corner.problem.traced.evaluate
      ((Corner.setup.bounds.map (·.project #v[0, 0])).getD #v[0, 0]) .jacobian ((), [])).1 =
      .ok e := congrArg Prod.fst heval
  obtain ⟨report, hreport⟩ := fit_of_firstPoint Corner.checkInput_eq htraced hfirst
  obtain ⟨-, hreports, hcalls⟩ := fit_respects Corner.checkInput_eq
  exact ⟨Corner.checkInput_eq, rfl, report, hreport, (hreports report hreport).1,
    hcalls rfl _ (Corner.problem.keeps_traced _) fun _ h => absurd h List.not_mem_nil⟩

end LeastSquares
