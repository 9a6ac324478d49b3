import LeastSquares.Proofs.Fit.Paced
import LeastSquares.Proofs.Fit.Restart
import LeastSquares.Proofs.Fit.Single

namespace LeastSquares

variable {σ : Type} {m n p : Nat}

namespace Config

variable {c : Config ℝ}

/-- A scale that is left by updates from the first one on, whatever Jacobians and second
derivatives they are given. -/
inductive Attains (c : Config ℝ) : Vector ℝ p → Prop where
  | initial : c.Attains (c.scaleMode.initial p)
  | update {n m : Nat} {d : Vector ℝ p} (j : Dense ℝ n m) (second : Option (Symmetric ℝ m))
      (first : Bool) : c.Attains d → c.Attains (c.updateScale j second first d)

def curvature (second : Option (Symmetric ℝ p)) (i : Fin p) : ℝ :=
  match second with
  | some s => max (s.get i i) 0
  | none => 0

theorem updateScale_entry (hadaptive : c.scaleMode = .adaptive) (j : Dense ℝ n p)
    (second : Option (Symmetric ℝ p)) (first : Bool) (d : Vector ℝ p) (i : Fin p) :
    (c.updateScale j second first d)[i] = c.scaleEntry (j.column i) (curvature second i)
      (if first then 0 else c.scaleDecay) d[i] := by
  unfold updateScale
  rw [hadaptive]
  simp only [getElem_place, Vector.getElem_ofFn]
  rw [dif_pos i.isLt]
  cases second <;> rfl

theorem curvature_nonneg (second : Option (Symmetric ℝ p)) (i : Fin p) :
    0 ≤ curvature second i := by
  cases second with
  | none => exact le_rfl
  | some s => exact le_max_right _ _

theorem scaleEntry_eq_zero_iff (hreset : 0 < c.scaleReset) (hfloor : 0 ≤ c.scaleFloor)
    {column : Vector ℝ n} {curvature decay d : ℝ} (hcurvature : 0 ≤ curvature)
    (hdecay : 0 ≤ decay * d) : c.scaleEntry column curvature decay d = 0 ↔
      c.scaleFloor = 0 ∧ coords column = 0 ∧ curvature = 0 ∧ decay * d = 0 := by
  have hsquare : 0 ≤ Geometry.norm column * Geometry.norm column := mul_self_nonneg _
  have hroot : Scalar.sqrt (Geometry.norm column * Geometry.norm column + curvature) = 0 ↔
      coords column = 0 ∧ curvature = 0 := by
    rw [sqrt_eq, Real.sqrt_eq_zero (add_nonneg hsquare hcurvature),
      add_eq_zero_iff_of_nonneg hsquare hcurvature, mul_self_eq_zero, norm_eq_zero]
  have hlarge : max (Scalar.sqrt (Geometry.norm column * Geometry.norm column + curvature))
      (decay * d) = 0 ↔ coords column = 0 ∧ curvature = 0 ∧ decay * d = 0 := by
    rw [← and_assoc, ← hroot]
    constructor
    · intro hzero
      exact ⟨((le_max_left _ _).trans hzero.le).antisymm (Real.sqrt_nonneg _),
        ((le_max_right _ _).trans hzero.le).antisymm hdecay⟩
    · rintro ⟨hleft, hright⟩
      rw [hleft, hright, max_self]
  unfold scaleEntry
  dsimp only
  split
  · next hsmall =>
    refine iff_of_false (lt_max_of_lt_left hreset).ne' fun h => ?_
    rw [h.1] at hsmall
    exact absurd hsmall (not_lt.mpr ((Real.sqrt_nonneg _).trans (le_max_left _ _)))
  · next hnot =>
    rw [hlarge]
    refine (and_iff_right_of_imp fun h => ?_).symm
    rw [hlarge.mpr h] at hnot
    exact (not_lt.mp hnot).antisymm hfloor

theorem scaleEntry_nonneg (hreset : 0 < c.scaleReset) (column : Vector ℝ n)
    (curvature decay d : ℝ) : 0 ≤ c.scaleEntry column curvature decay d := by
  unfold scaleEntry
  dsimp only
  split
  · exact (lt_max_of_lt_left hreset).le
  · exact le_max_of_le_left (Real.sqrt_nonneg _)

section

variable (hc : c.validate p = .ok ())
include hc

theorem attains_nonneg {d : Vector ℝ p} (hd : c.Attains d) : ∀ i : Fin p, 0 ≤ d[i] := by
  have hreset : 0 < c.scaleReset := pos_of_validate hc (f := .scaleReset) (by decide)
  induction hd with
  | initial => exact fun i => (initial_pos hc i).le
  | update j second first _ ih =>
    intro i
    unfold updateScale
    split
    · exact ih i
    · simp only [getElem_place, Vector.getElem_ofFn]
      split
      · exact scaleEntry_nonneg hreset _ _ _ _
      · exact ih i

theorem attains_pos (hscale : c.Scales) {d : Vector ℝ p} (hd : c.Attains d) :
    ∀ i : Fin p, 0 < d[i] := by
  have hreset : 0 < c.scaleReset := pos_of_validate hc (f := .scaleReset) (by decide)
  induction hd with
  | initial => exact fun i => initial_pos hc i
  | update j second first _ ih => exact updateScale_pos hreset hscale j second first ih

theorem scales_iff (hp : 0 < p) :
    c.Scales ↔ ∀ d : Vector ℝ p, c.Attains d → ∀ i : Fin p, 0 < d[i] := by
  refine ⟨fun hscale d hd => attains_pos hc hscale hd, fun hpos hadaptive => ?_⟩
  have hreset : 0 < c.scaleReset := pos_of_validate hc (f := .scaleReset) (by decide)
  have hfloor : 0 ≤ c.scaleFloor := nonneg_of_validate hc (f := .scaleFloor) (by decide)
  refine hfloor.lt_of_ne' fun hzero => ?_
  have hentry : (c.updateScale (.ofFn fun _ _ => 0 : Dense ℝ p p) none true
      (c.scaleMode.initial p))[(⟨0, hp⟩ : Fin p)] = 0 := by
    have hdecay :
        (if true then 0 else c.scaleDecay) * (c.scaleMode.initial p)[(⟨0, hp⟩ : Fin p)] = 0 :=
      zero_mul _
    rw [updateScale_entry hadaptive,
      scaleEntry_eq_zero_iff hreset hfloor (curvature_nonneg _ _) hdecay.ge]
    refine ⟨hzero, funext fun k => ?_, rfl, hdecay⟩
    simp [coords, Dense.column, Dense.ofFn]
  exact (hpos _ (.update _ none true .initial) ⟨0, hp⟩).ne' hentry

end

end Config

namespace Setup

variable (s : Setup ℝ σ p)

/-- Nothing is left, when the iteration that follows the run `r` begins, that could make an entry
of the scale positive. -/
structure Vanishes (r : Run ℝ σ n p) (i : Fin p) : Prop where
  adaptive : s.config.scaleMode = .adaptive
  floor : s.config.scaleFloor = 0
  column : coords (r.base.jacobian.column i) = 0
  curvature : (s.opening r).run.search.iterate.model = .augmented →
    (s.opening r).run.secant.get i i ≤ 0
  decayed : r.previous = none ∨ s.config.scaleDecay * r.search.iterate.d[i] = 0

theorem opening_update (r : Run ℝ σ n p) : (s.opening r).run.search.iterate.d =
    s.config.updateScale r.base.jacobian
      (match (s.opening r).run.search.iterate.model with
        | .augmented => some (s.opening r).run.secant
        | .gaussNewton => none) r.previous.isNone r.search.iterate.d := by
  cases hr : r.previous with
  | none =>
    obtain ⟨warnings, hopening⟩ := s.opening_first hr
    rw [hopening]
    rfl
  | some a =>
    obtain ⟨warnings, hopening⟩ := s.opening_next hr
    obtain ⟨model, radius, secant, hlearn⟩ := learn_run s.config r.base.gradient { r with
      iterations := r.iterations + 1
      warnings } a
    rw [hopening, hlearn]
    rfl

theorem attains_opening {r : Run ℝ σ n p} (hr : s.config.Attains r.search.iterate.d) :
    s.config.Attains (s.opening r).run.search.iterate.d := by
  rw [opening_update]
  exact .update _ _ _ hr

theorem opening_eq_zero_iff (hc : s.config.validate p = .ok ()) {r : Run ℝ σ n p}
    (hr : s.config.Attains r.search.iterate.d) (i : Fin p) :
    (s.opening r).run.search.iterate.d[i] = 0 ↔ s.Vanishes r i := by
  have hreset : 0 < s.config.scaleReset :=
    Config.pos_of_validate hc (f := .scaleReset) (by decide)
  have hfloor : 0 ≤ s.config.scaleFloor :=
    Config.nonneg_of_validate hc (f := .scaleFloor) (by decide)
  have hscaleDecay : 0 ≤ s.config.scaleDecay :=
    Config.nonneg_of_validate hc (f := .scaleDecay) (by decide)
  by_cases hadaptive : s.config.scaleMode = .adaptive
  · have hdecay : 0 ≤ (if r.previous.isNone then 0 else s.config.scaleDecay) *
        r.search.iterate.d[i] := by
      refine mul_nonneg ?_ (Config.attains_nonneg hc hr i)
      split
      · exact le_rfl
      · exact hscaleDecay
    rw [opening_update, Config.updateScale_entry hadaptive,
      Config.scaleEntry_eq_zero_iff hreset hfloor (Config.curvature_nonneg _ _) hdecay]
    have hcurvature : Config.curvature (match (s.opening r).run.search.iterate.model with
        | .augmented => some (s.opening r).run.secant
        | .gaussNewton => none) i = 0 ↔
          ((s.opening r).run.search.iterate.model = .augmented →
            (s.opening r).run.secant.get i i ≤ 0) := by
      cases (s.opening r).run.search.iterate.model with
      | gaussNewton => exact iff_of_true rfl nofun
      | augmented => exact max_eq_right_iff.trans ⟨fun h _ => h, fun h => h rfl⟩
    have hdecayed : (if r.previous.isNone then 0 else s.config.scaleDecay) *
        r.search.iterate.d[i] = 0 ↔
          (r.previous = none ∨ s.config.scaleDecay * r.search.iterate.d[i] = 0) := by
      cases r.previous with
      | none => exact iff_of_true (zero_mul _) (.inl rfl)
      | some a => exact ⟨.inr, fun h => h.resolve_left nofun⟩
    rw [hcurvature, hdecayed]
    exact ⟨fun ⟨hfloor, hcolumn, hcurvature, hdecayed⟩ =>
      ⟨hadaptive, hfloor, hcolumn, hcurvature, hdecayed⟩,
      fun h => ⟨h.floor, h.column, h.curvature, h.decayed⟩⟩
  · have hpos := Config.attains_pos hc (fun h => absurd h hadaptive) (s.attains_opening hr) i
    exact iff_of_false hpos.ne' fun h => hadaptive h.adaptive

/-- The scales that something is divided by in a run that ends with `r`: those of the step
solver's calls, those of accepted steps, and the one that the covariance is computed with. -/
inductive Divides (l : List (Head ℝ σ n p)) (r : Run ℝ σ n p) : Vector ℝ p → Prop where
  | call {q : StepCall ℝ p} : q ∈ l.flatMap s.calls → Divides l r q.d
  | accepted {h : Head ℝ σ n p} {r' : Run ℝ σ n p} {a : Accepted ℝ n p} : h ∈ l →
      s.Passed h r' → r'.previous = some a → Divides l r a.d
  | covariance : Divides l r
      (s.finalJacobian (s.finalPoint r).1 (s.finalPoint r).2.1).1.search.iterate.d

variable {s} {h : Head ℝ σ n p} {l : List (Head ℝ σ n p)} {r₀ r : Run ℝ σ n p} {o : Outcome}

theorem calls_scale {q : StepCall ℝ p} (hq : q ∈ s.calls h) : q.d = h.run.search.iterate.d := by
  have hprobe : (s.probeCall h).d = h.run.search.iterate.d := (s.probeCall_handed h).2.d
  unfold calls at hq
  split at hq
  · rcases List.mem_pair.mp hq with rfl | rfl
    · exact hprobe
    · rfl
  · rw [List.mem_singleton.mp hq]
    rfl

theorem passed_scale (hr : s.Passed h r) : r.search.iterate.d = h.run.search.iterate.d ∧
    ∀ a, r.previous = some a → a.d = h.run.search.iterate.d := by
  have hd := s.judged_scale h
  obtain ⟨-, v, j, a, state, -, rfl⟩ := hr
  refine ⟨hd, ?_⟩
  rintro _ ⟨⟩
  exact hd

theorem ends_scale (hend : s.Ends h r o) : r.search.iterate.d = h.run.search.iterate.d := by
  cases hend with
  | limit _ =>
    unfold giveUp
    dsimp only
    split <;> (rw [tried_eq]; rfl)
  | exhausted _ hr _ => exact (passed_scale (s.followed_accepted h hr)).1
  | finished _ hr =>
    rcases s.followed_finished h hr with ⟨hr, -⟩ | ⟨-, rfl, -⟩
    · exact (passed_scale hr).1
    · exact s.judged_scale h

theorem final_scale (r : Run ℝ σ n p) :
    (s.finalJacobian (s.finalPoint r).1 (s.finalPoint r).2.1).1.search.iterate.d =
      r.search.iterate.d := by
  have hpoint : (s.finalPoint r).1.search.iterate.d = r.search.iterate.d := by
    unfold finalPoint
    dsimp only
    split
    · rfl
    · split <;> rfl
  refine Eq.trans ?_ hpoint
  unfold finalJacobian
  split <;> rfl

theorem divides_starts (hl : s.Passes r₀ l) (hend : ∃ h ∈ l.head?, s.Ends h r o) {d : Vector ℝ p}
    (hd : s.Divides l r d) :
    ∃ r₁, s.Starts r₀ l r₁ ∧ d = (s.opening r₁).run.search.iterate.d := by
  obtain ⟨h, hh, heq⟩ : ∃ h ∈ l, d = h.run.search.iterate.d := by
    cases hd with
    | call hq =>
      obtain ⟨h, hh, hq⟩ := List.mem_flatMap.mp hq
      exact ⟨h, hh, calls_scale hq⟩
    | accepted hh hr ha => exact ⟨_, hh, (passed_scale hr).2 _ ha⟩
    | covariance =>
      obtain ⟨h, hh, hend⟩ := hend
      exact ⟨h, List.mem_of_mem_head? hh, (s.final_scale r).trans (ends_scale hend)⟩
  obtain ⟨r₁, hstarts, hw⟩ := s.exists_belongs hl h hh
  exact ⟨r₁, hstarts, heq.trans hw.d⟩

theorem starts_attains (hr₀ : s.config.Attains r₀.search.iterate.d) (hl : s.Passes r₀ l)
    {r₁ : Run ℝ σ n p} (hr₁ : s.Starts r₀ l r₁) : s.config.Attains r₁.search.iterate.d := by
  have hall : ∀ h ∈ l, s.config.Attains h.run.search.iterate.d := by
    refine s.passes_invariant hl (s.attains_opening hr₀) ?again ?next
    case again =>
      intro h _ r _ _ hh _ hr
      rw [(s.again_run hr).2.2.1]
      exact hh
    case next =>
      intro h _ r _ _ hh _ hr
      refine s.attains_opening ?_
      rw [(passed_scale (s.followed_accepted h hr)).1]
      exact hh
  rcases hr₁.2 with rfl | ⟨q, hq, hr⟩
  · exact hr₀
  · rw [(passed_scale (s.followed_accepted q hr)).1]
    exact hall q hq

end Setup

variable {c : Config ℝ}

/-- Every division is by a positive scale exactly if entries below a positive floor are reset. A
floor of zero is never undercut, so that the entry of a column of zeros becomes zero, in the first
iteration at the latest. -/
theorem fit_scaled (hp : 0 < p) (hc : c.validate p = .ok ()) :
    (c.Scales ↔ ∀ d : Vector ℝ p, c.Attains d → ∀ i : Fin p, 0 < d[i]) ∧
    ∀ (P : Problem ℝ σ p) (initial : Vector ℝ p)
      (lower upper : Option (Array (Scalar.Side ℝ))) (state : σ) (report : Report ℝ p),
      (fit P initial lower upper c state).1 = .ok report →
    ∃ (n : Nat) (s : Setup ℝ σ p) (r₀ : Run ℝ σ n p) (l : List (Head ℝ σ n p))
      (r : Run ℝ σ n p) (o : Outcome), Begun P initial lower upper c state s r₀ ∧
        s.Ran r₀ l r o ∧ report = (s.finish r o).1 ∧
        (c.Scales → ∀ d, s.Divides l r d → ∀ i : Fin p, 0 < d[i]) ∧
        (∀ d, s.Divides l r d →
          ∃ r₁, s.Starts r₀ l r₁ ∧ d = (s.opening r₁).run.search.iterate.d) ∧
        ∀ r₁, s.Starts r₀ l r₁ → ∀ i : Fin p,
          0 ≤ (s.opening r₁).run.search.iterate.d[i] ∧
          ((s.opening r₁).run.search.iterate.d[i] = 0 ↔ s.Vanishes r₁ i) := by
  refine ⟨Config.scales_iff hc hp, fun P initial lower upper state report h => ?_⟩
  obtain ⟨n, s, r₀, l, r, o, hbegun, ⟨hl, hend⟩, hreport⟩ := fit_ran h
  have hvalid := hbegun.valid
  have hconfig := hbegun.config
  have hr₀ : s.config.Attains r₀.search.iterate.d := by
    obtain ⟨e, l, state', -, -, rfl⟩ := hbegun.first
    rw [hconfig]
    exact .initial
  refine ⟨n, s, r₀, l, r, o, hbegun, ⟨hl, hend⟩, hreport, fun hscale d hd => ?_,
    fun d hd => Setup.divides_starts hl hend hd, fun r₁ hr₁ i => ?_⟩
  · obtain ⟨r₁, hr₁, rfl⟩ := Setup.divides_starts hl hend hd
    have hattains := s.attains_opening (Setup.starts_attains hr₀ hl hr₁)
    exact Config.attains_pos hvalid (hconfig ▸ hscale) hattains
  · have hattains := Setup.starts_attains hr₀ hl hr₁
    exact ⟨Config.attains_nonneg hvalid (s.attains_opening hattains) i,
      s.opening_eq_zero_iff hvalid hattains i⟩

theorem fit_scaled_zigzag : 0 < 1 ∧ (Config.default : Config ℝ).validate 1 = .ok () ∧
    ((Config.default : Config ℝ).Scales ↔
      ∀ d : Vector ℝ 1, (Config.default : Config ℝ).Attains d → ∀ i : Fin 1, 0 < d[i]) ∧
    ∃ report, (fit (.single (Zigzag.residual (-1)) Zigzag.slope) #v[0] none none Config.default
      ()).1 = .ok report ∧
    ∃ (n : Nat) (s : Setup ℝ Unit 1) (r₀ : Run ℝ Unit n 1) (l : List (Head ℝ Unit n 1))
      (r : Run ℝ Unit n 1) (o : Outcome),
        Begun (.single (Zigzag.residual (-1)) Zigzag.slope) #v[0] none none Config.default () s
          r₀ ∧
        s.Ran r₀ l r o ∧ report = (s.finish r o).1 ∧ (∃ d, s.Divides l r d) ∧
        ((Config.default : Config ℝ).Scales → ∀ d, s.Divides l r d → ∀ i : Fin 1, 0 < d[i]) ∧
        (∀ d, s.Divides l r d →
          ∃ r₁, s.Starts r₀ l r₁ ∧ d = (s.opening r₁).run.search.iterate.d) ∧
        ∀ r₁, s.Starts r₀ l r₁ → ∀ i : Fin 1,
          0 ≤ (s.opening r₁).run.search.iterate.d[i] ∧
          ((s.opening r₁).run.search.iterate.d[i] = 0 ↔ s.Vanishes r₁ i) := by
  have hc : (Config.default : Config ℝ).validate 1 = .ok () := Config.validate_default 1
  have hbegun := Single.begun (r := Zigzag.residual (-1)) (j := Zigzag.slope) (x := 0)
    (by norm_num [Zigzag.residual_zero]) (by norm_num [Zigzag.slope_zero]) hc (by norm_num)
  obtain ⟨hscales, hruns⟩ := fit_scaled (σ := Unit) Nat.one_pos hc
  obtain ⟨n, s, r₀, l, r, o, hbegun', hran, hfinish, hrest⟩ := hruns _ _ _ _ _ _ hbegun.fit_eq
  obtain ⟨q, l', hcalls, -⟩ := s.calls_eq (s.opening r₀)
  have hcall : q ∈ l.flatMap s.calls :=
    List.mem_flatMap.mpr ⟨_, hran.1.opening_mem, hcalls ▸ List.mem_cons_self⟩
  exact ⟨Nat.one_pos, hc, hscales, _, hbegun.fit_eq, n, s, r₀, l, r, o, hbegun', hran, hfinish,
    ⟨q.d, .call hcall⟩, hrest⟩

end LeastSquares
