import LeastSquares.Proofs.Fit.Origin
import LeastSquares.Proofs.Fit.Single

namespace LeastSquares

variable {σ : Type} {n p : Nat}

namespace Run

/-- The model of the iterate and the Hessian that is kept are those of this model. -/
def Remembers (r : Run ℝ σ n p) (a : Accepted ℝ n p) (m : Model) : Prop :=
  r.search.iterate.model = m ∧ a.hessian = r.modelHessian a.normal m

theorem modelHessian_inj_iff (r : Run ℝ σ n p) (normal : Symmetric ℝ p) {m m' : Model} :
    r.modelHessian normal m = r.modelHessian normal m' ↔
      m = m' ∨ normal.add r.secant = normal := by
  cases m <;> cases m' <;> simp [modelHessian, eq_comm]

end Run

namespace Setup

/-- How the step came about that goes through at the trial `h`: it was made by the trial `q`
and is taken for one of the model of `b`, and the Hessian that is kept is that of `h`. -/
structure Derived (s : Setup ℝ σ p) (h : Head ℝ σ n p) (l : List (Head ℝ σ n p))
    (r : Run ℝ σ n p) (a : Accepted ℝ n p) (q b : Head ℝ σ n p) : Prop where
  made : Latest s.Makes (h :: l) q
  named : Latest s.Names (h :: l) b
  iteration : q.run.iterations = h.run.iterations ∧ b.run.iterations = h.run.iterations
  step : r.search.trial.step = (s.clamped q).step
  place : r.search.iterate.x = s.target q
  kept : r.previous = some a
  computed : q.run.hessian q.normal = r.modelHessian a.normal q.model
  model : r.search.iterate.model = b.model
  hessian : a.hessian = r.modelHessian a.normal h.model

variable {s : Setup ℝ σ p} {h : Head ℝ σ n p} {l : List (Head ℝ σ n p)} {r r₀ : Run ℝ σ n p}

theorem passed_derived (hstart : r₀.search.verdict = .accept) (hl : s.Passes r₀ (h :: l))
    (hr : s.Passed h r) : ∃ q b, s.Derived h l r (s.accepted h) q b := by
  have hs := s.passes_steady hstart hl h List.mem_cons_self
  have ho := s.passes_origin hstart hl
  obtain ⟨hv, v, j, a, state, -, rfl⟩ := hr
  obtain ⟨hw, t, hstep, htaken⟩ := (s.judged_judged hs).1.taken hv
  obtain ⟨q, hq, hq', hqstep, hplace⟩ := s.taken_step ho hw htaken
  obtain ⟨b, hb, hb', hmodel⟩ := s.taken_model ho hw htaken
  refine ⟨q, b, hq, hb, ⟨hq'.iterations, hb'.iterations⟩, hstep.symm.trans hqstep, hplace, rfl,
    ?_, hmodel, ?_⟩
  · rw [hq'.hessian]
    exact (Run.modelHessian_congr (s.judged_secant h) h.normal q.model).symm
  · change (s.tried h).hessian h.normal = _
    rw [tried_hessian]
    exact (Run.modelHessian_congr (s.judged_secant h) h.normal h.model).symm

variable {a : Accepted ℝ n p} {q b : Head ℝ σ n p}

theorem Derived.remembers_iff (hd : s.Derived h l r a q b) : r.Remembers a q.model ↔
    b.model = q.model ∧ (h.model = q.model ∨ a.normal.add r.secant = a.normal) := by
  rw [Run.Remembers, hd.model, hd.hessian, Run.modelHessian_inj_iff]

/-- The next iteration compares the Hessian that is kept with that of the other model than the
iterate's. These are the two different models exactly if the last trial agrees with the iterate. -/
theorem Derived.compares_iff (hd : s.Derived h l r a q b) :
    a.hessian = r.modelHessian a.normal r.search.iterate.model ↔
      h.model = b.model ∨ a.normal.add r.secant = a.normal := by
  rw [hd.model, hd.hessian, Run.modelHessian_inj_iff]

end Setup

variable {P : Problem ℝ σ p} {initial : Vector ℝ p} {lower upper : Option (Array (Scalar.Side ℝ))}
  {c : Config ℝ} {state : σ} {report : Report ℝ p}

/-- What is remembered of a step that goes through is the model it was computed with exactly if
neither an earlier step was put back in its place from another model, nor its model exchanged. -/
theorem fit_remembers (h : (fit P initial lower upper c state).1 = .ok report) :
    ∃ (n : Nat) (s : Setup ℝ σ p) (r₀ : Run ℝ σ n p) (l : List (Head ℝ σ n p))
      (r : Run ℝ σ n p) (o : Outcome), Begun P initial lower upper c state s r₀ ∧
        s.Ran r₀ l r o ∧ report = (s.finish r o).1 ∧
        ∀ h l' r', h :: l' <:+ l → s.Passed h r' → ∃ a q b, s.Derived h l' r' a q b ∧
          (r'.Remembers a q.model ↔ b.model = q.model ∧
            (h.model = q.model ∨ a.normal.add r'.secant = a.normal)) ∧
          (a.hessian = r'.modelHessian a.normal r'.search.iterate.model ↔
            h.model = b.model ∨ a.normal.add r'.secant = a.normal) := by
  obtain ⟨n, s, r₀, l, r, o, hbegun, ⟨hl, hend⟩, hreport⟩ := fit_ran h
  refine ⟨n, s, r₀, l, r, o, hbegun, ⟨hl, hend⟩, hreport, fun h l' r' hsuffix hr => ?_⟩
  have hstart : r₀.search.verdict = .accept := by
    obtain ⟨e, l, state', -, -, rfl⟩ := hbegun.first
    rfl
  obtain ⟨q, b, hd⟩ := Setup.passed_derived hstart (s.passes_suffix hl hsuffix) hr
  exact ⟨_, q, b, hd, hd.remembers_iff, hd.compares_iff⟩

namespace Zigzag

open Single

/-- So little is gained on the way back that the other model is tried before it is taken. -/
noncomputable def weak : ℝ := -39 / 20

theorem judged_second_weak : ∃ radius factor, 4 ≤ radius ∧
    ((setup weak).judged (second weak)).search = back weak .otherOrAccept radius factor := by
  obtain ⟨radius, record, hradius, hscored⟩ := scored_second weak (by norm_num [weak])
  have hchange : relativeStep #v[1] #v[2] #v[4] = (1 / 3 : ℝ) := by
    rw [relativeStep_single]
    norm_num
  have hassess : assess config ((setup weak).scored (second weak)) =
      back weak .otherOrAccept radius record.radiusFactor := by
    rw [hscored]
    have hstage : (1 : Int32) < 2 := by decide
    refine (Search.Begins.assess_weak ?_ ?_ ?_ ?_ hstage ?_).trans ?_
    · rfl
    · rfl
    · norm_num [weak, Trial.single, config, Config.default]
    · norm_num [weak, Trial.single, config, Config.default]
    · rw [hchange]
      apply silent_config <;> norm_num [weak, Trial.single, abs_of_pos]
    · rw [hchange]
      norm_num [back, Trial.single]
  exact ⟨radius, _, hradius, (setup weak).judged_of_assess hassess (by rintro ⟨⟩)⟩

theorem judged_third_weak : ∃ radius factor trial record, 4 ≤ radius ∧
    ((setup weak).judged (second weak)).search = back weak .otherOrAccept radius factor ∧
    ((setup weak).judged (third weak)).search = {
      verdict := .accept
      iterate := (back weak .otherOrAccept radius factor).iterate
      trial
      record } := by
  obtain ⟨radius, factor, hradius, hsecond⟩ := judged_second_weak
  have hscored := scored_third weak (.inr rfl) hsecond rfl rfl hradius
  have hassess : ∃ record, assess config ((setup weak).scored (third weak)) = {
      verdict := .accept
      iterate := (back weak .otherOrAccept radius factor).iterate
      trial := ((setup weak).scored (third weak)).recalled
      record } := by
    rw [hscored]
    refine (Search.assess_back ?_ ?_ ?_ ?_ ?_ ?_ ?_ ?_ ?_ ?_ ?_).imp
      fun record hback => hback.trans ?_
    · exact .inr rfl
    · rfl
    · rfl
    · rintro ⟨⟩
    · norm_num [back, weak]
    · norm_num [back, weak]
    · rfl
    · norm_num [back, weak, config, Config.default]
    · norm_num [back, weak, config, Config.default]
    · norm_num [back, config]
    · apply silent_config <;> norm_num [back, weak, Search.recalled, Trial.single, abs_of_pos]
    · rw [add_single]
      norm_num [back]
  obtain ⟨record, hassess⟩ := hassess
  exact ⟨radius, factor, _, record, hradius, hsecond,
    (setup weak).judged_of_assess hassess (by rintro ⟨⟩)⟩

theorem passed_third_weak : ∃ r, (setup weak).Passed (third weak) r ∧
    r.search.iterate.x = #v[2] ∧ r.secant.get 0 0 = 1 := by
  obtain ⟨radius, factor, trial, record, -, hsecond, hthird⟩ := judged_third_weak
  obtain ⟨r₁, run, _, _, -, hopening, -, -, -, hsecant, -⟩ := opened_second weak
  have hplace : ((setup weak).judged (third weak)).search.iterate.x = #v[2] := by
    rw [hthird]
    rfl
  have hlinear := linearization_eq (r := residual weak) (j := slope) (x := 2)
    (by norm_num [residual_two, weak]) (by norm_num [slope])
    ((setup weak).judged (third weak)).account
  rw [← hplace] at hlinear
  have hverdict : ((setup weak).judged (third weak)).search.verdict = .accept := by rw [hthird]
  refine ⟨_, ⟨.inr hverdict, _, _, _, (), hlinear, rfl⟩, hplace, ?_⟩
  change ((setup weak).judged (third weak)).secant.get 0 0 = 1
  rw [Setup.judged_secant, third_eq weak (.inr rfl) hsecond]
  change ((setup weak).judged (second weak)).secant.get 0 0 = 1
  rw [Setup.judged_secant, hopening, hsecant]

theorem derived_third_weak {r : Run ℝ Unit 1 1} {a : Accepted ℝ 1 1} {q b : Head ℝ Unit 1 1}
    (hplace : r.search.iterate.x = #v[2])
    (hd : (setup weak).Derived (third weak) [second weak, first weak] r a q b) :
    (third weak).model ≠ q.model := by
  obtain ⟨radius, factor, _, _, hradius, hsecond, -⟩ := judged_third_weak
  obtain ⟨_, _, _, _, -, hopening, -, -, -, -, hsearch⟩ := opened_second weak
  have hthird : (third weak).model = .augmented := by
    rw [third_eq weak (.inr rfl) hsecond]
    rfl
  have hmodel : (second weak).model = .gaussNewton := by rw [Head.model, hopening, hsearch]
  have hfirst : (first weak).model = .gaussNewton := by
    obtain ⟨warnings, heq⟩ := opening_start (residual weak) slope (c := config) rfl 0
    rw [Head.model, first, heq]
  have hmem : q ∈ [third weak, second weak, first weak] := by
    obtain ⟨l₁, l₂, heq, -, -⟩ := hd.made
    rw [heq]
    exact List.mem_append_right l₁ List.mem_cons_self
  rw [hthird]
  simp only [List.mem_cons, List.not_mem_nil, or_false] at hmem
  rcases hmem with rfl | rfl | rfl
  · have hphi : 0 ≤ config.phiMax := by norm_num [config, Config.default]
    have htarget := (fresh_third weak (.inr rfl) hsecond rfl rfl hradius).target_eq
      (s := setup weak) rfl hphi
    have hsame : #v[(2 : ℝ)] = #v[3] := hplace.symm.trans (hd.place.trans htarget)
    norm_num at hsame
  · rw [hmodel]
    decide
  · rw [hfirst]
    decide

end Zigzag

theorem fit_remembers_zigzag : ∃ report,
    (fit (.single (Zigzag.residual Zigzag.weak) Zigzag.slope) #v[0] none none Single.config
      ()).1 = .ok report ∧
    ∃ (n : Nat) (s : Setup ℝ Unit 1) (r₀ : Run ℝ Unit n 1) (l : List (Head ℝ Unit n 1))
      (r : Run ℝ Unit n 1) (o : Outcome),
        Begun (.single (Zigzag.residual Zigzag.weak) Zigzag.slope) #v[0] none none Single.config
          () s r₀ ∧
        s.Ran r₀ l r o ∧ report = (s.finish r o).1 ∧
        (∀ h l' r', h :: l' <:+ l → s.Passed h r' → ∃ a q b, s.Derived h l' r' a q b ∧
          (r'.Remembers a q.model ↔ b.model = q.model ∧
            (h.model = q.model ∨ a.normal.add r'.secant = a.normal)) ∧
          (a.hessian = r'.modelHessian a.normal r'.search.iterate.model ↔
            h.model = b.model ∨ a.normal.add r'.secant = a.normal)) ∧
        ∃ h l' r' a q b, h :: l' <:+ l ∧ s.Passed h r' ∧ s.Derived h l' r' a q b ∧
          h.model ≠ q.model ∧ ¬r'.Remembers a q.model := by
  have hreport := (Zigzag.begun Zigzag.weak).fit_eq
  obtain ⟨n, s, r₀, l, r, o, hbegun, hran, hfinish, hremembers⟩ := fit_remembers hreport
  obtain ⟨rfl, rfl, rfl⟩ := hbegun.unique (Zigzag.begun Zigzag.weak)
  refine ⟨_, hreport, 1, _, _, l, r, o, hbegun, hran, hfinish, hremembers, ?_⟩
  obtain ⟨_, _, _, _, -, hsecond, -⟩ := Zigzag.judged_third_weak
  obtain ⟨r', hpassed, hplace, hsecant⟩ := Zigzag.passed_third_weak
  have hsuffix := hran.suffix (Zigzag.passes_third _ (.inr rfl) hsecond)
  obtain ⟨a, q, b, hd, hiff, -⟩ := hremembers _ _ _ hsuffix hpassed
  have hmodel := Zigzag.derived_third_weak hplace hd
  refine ⟨_, _, r', a, q, b, hsuffix, hpassed, hd, hmodel, fun hremembers => ?_⟩
  obtain hsame | hsame := (hiff.mp hremembers).2
  · exact hmodel hsame
  · have hentry : (a.normal.add r'.secant).get 0 0 = a.normal.get 0 0 := by rw [hsame]
    rw [← Symmetric.matrix_apply, Symmetric.matrix_add, Matrix.add_apply, Symmetric.matrix_apply,
      Symmetric.matrix_apply, hsecant] at hentry
    linarith

end LeastSquares
