import LeastSquares.Proofs.Fit.Stalled
import LeastSquares.Proofs.Linear.Normal
import LeastSquares.Proofs.TrustStep.Whole
import Mathlib.LinearAlgebra.Matrix.Notation

namespace LeastSquares

open Matrix

theorem norm_pair {a b c : ℝ} (hc : 0 ≤ c) (h : a * a + b * b = c * c) :
    Geometry.norm #v[a, b] = c := by
  have hsum : coords #v[a, b] ⬝ᵥ coords #v[a, b] = a * a + b * b := Fin.sum_univ_two _
  rw [norm_eq, hsum, h]
  exact Real.sqrt_mul_self hc

theorem dot_pair (a b c d : ℝ) : dot #v[a, b] #v[c, d] = a * c + b * d := by
  rw [dot_eq_sum]
  exact Fin.sum_univ_two _

namespace Corner

noncomputable def jacobian : Dense ℝ 2 2 := ⟨#v[#v[5, 0], #v[-3, 4]]⟩

noncomputable def fresh : Sweep ℝ 2 2 :=
  ⟨#v[#v[5, 0], #v[-3, 4]], #v[0, 0], #v[0, 1], #v[25, 25], #v[25, 25]⟩

noncomputable def halved : Sweep ℝ 2 2 :=
  ⟨#v[#v[2, 0], #v[3, 4]], #v[-5, 0], #v[0, 1], #v[25, 16], #v[25, 25]⟩

noncomputable def swept : Sweep ℝ 2 2 :=
  ⟨#v[#v[2, 0], #v[3, 2]], #v[-5, -4], #v[0, 1], #v[25, 16], #v[25, 25]⟩

theorem norm_columns : Geometry.norm #v[(5 : ℝ), 0] = 5 ∧ Geometry.norm #v[(-3 : ℝ), 4] = 5 :=
  ⟨norm_pair (by norm_num) (by norm_num), norm_pair (by norm_num) (by norm_num)⟩

theorem start_jacobian : Sweep.start jacobian = fresh := by
  unfold Sweep.start jacobian fresh
  simp only [Vector.map_mk, List.map_toArray, List.map_cons, List.map_nil, norm_columns, square]
  norm_num
  exact ⟨rfl, rfl⟩

theorem pivot_fresh : fresh.pivot 0 = fresh := by
  have hlongest : fresh.longest 0 = 0 := by
    change (if (25 : ℝ) < 25 then 1 else 0 : Fin 2) = 0
    rw [if_neg (lt_irrefl _)]
  unfold Sweep.pivot
  rw [hlongest]
  rfl

theorem tailNorm_fresh : fresh.tailNorm 0 = 5 := norm_columns.1

theorem tailNorm_halved : halved.tailNorm 1 = 4 := by
  have hsingle : halved.tailNorm 1 = Geometry.norm #v[(4 : ℝ)] := rfl
  rw [hsingle, norm_single, abs_of_pos (by norm_num)]

theorem obstacle_eq_none {w : Sweep ℝ 2 2} {j : Fin 2} (h : 1 ≤ w.tailNorm j) :
    w.obstacle 5 j = none := by
  have hrank := rankTolerance_le
  have htiny := sqrtTiny_lt_one.le
  have hdeficient : ¬((w.tailNorm j == 0) = true ∨ w.tailNorm j ≤ rankTolerance * 5) := by
    rw [not_or, beq_iff]
    constructor <;> linarith
  unfold Sweep.obstacle
  dsimp only
  rw [if_neg hdeficient, if_neg (not_lt.mpr (htiny.trans h))]

theorem reflect_second : reflect (0 : Fin 2) #v[(2 : ℝ), 0] #v[-3, 4] = #v[3, 4] := by
  have hdot : dot (#v[(-3 : ℝ), 4].drop 0) (#v[(2 : ℝ), 0].drop 0) = -3 * 2 + 4 * 0 :=
    dot_pair (-3) 4 2 0
  have hentries : reflect (0 : Fin 2) #v[(2 : ℝ), 0] #v[-3, 4] =
      #v[-(dot (#v[(-3 : ℝ), 4].drop 0) (#v[(2 : ℝ), 0].drop 0) / 2) * 2 + -3,
        -(dot (#v[(-3 : ℝ), 4].drop 0) (#v[(2 : ℝ), 0].drop 0) / 2) * 0 + 4] := rfl
  rw [hentries, hdot]
  norm_num

theorem reflector_first : reflector (0 : Fin 2) (5 : ℝ) fresh.columns[(0 : Fin 2)] =
    #v[2, 0] := by
  have hentries : reflector (0 : Fin 2) (5 : ℝ) fresh.columns[(0 : Fin 2)] =
      #v[5 / 5 + 1, 0 / 5] := rfl
  rw [hentries]
  norm_num

theorem reflector_second : reflector (1 : Fin 2) (4 : ℝ) halved.columns[(1 : Fin 2)] =
    #v[3, 2] := by
  have hentries : reflector (1 : Fin 2) (4 : ℝ) halved.columns[(1 : Fin 2)] =
      #v[3, 4 / 4 + 1] := rfl
  rw [hentries]
  norm_num

theorem eliminate_fresh : fresh.eliminate 0 0 = halved := by
  have hsign : ¬fresh.columns[(0 : Fin 2)][(0 : Fin 2)] < 0 := by
    change ¬(5 : ℝ) < 0
    norm_num
  unfold Sweep.eliminate
  dsimp only
  rw [tailNorm_fresh, if_neg hsign, reflector_first]
  change Sweep.reflectColumn (⟨#v[#v[2, 0], #v[-3, 4]], #v[-5, 0], #v[0, 1], #v[25, 25],
    #v[25, 25]⟩ : Sweep ℝ 2 2) 0 #v[2, 0] 1 = halved
  have hcolumn : reflect (0 : Fin 2) #v[(2 : ℝ), 0] (#v[#v[(2 : ℝ), 0], #v[-3, 4]])[(1 : Fin 2)] =
      #v[3, 4] := reflect_second
  have hleft : (#v[(25 : ℝ), 25])[(1 : Fin 2)] -
      (#v[(3 : ℝ), 4])[(0 : Fin 2)] * (#v[(3 : ℝ), 4])[(0 : Fin 2)] = 16 := by
    change (25 : ℝ) - 3 * 3 = 16
    norm_num
  unfold Sweep.reflectColumn
  dsimp only
  rw [hcolumn, hleft]
  split
  · next hsmall =>
    have hsmall : (16 : ℝ) ≤ ((1 : Nat) : ℝ) / ((100 : Nat) : ℝ) * 25 := hsmall
    norm_num at hsmall
  · rfl

theorem eliminate_halved : halved.eliminate 1 1 = swept := by
  have hsign : ¬halved.columns[(1 : Fin 2)][(1 : Fin 2)] < 0 := by
    change ¬(4 : ℝ) < 0
    norm_num
  unfold Sweep.eliminate
  dsimp only
  rw [tailNorm_halved, if_neg hsign, reflector_second]
  rfl

theorem run_cons {longest : ℝ} {k : Fin 2} {ks : List (Fin 2)} {w : Sweep ℝ 2 2}
    (h : (w.pivot k).obstacle longest k = none) :
    Sweep.run longest 0 (k :: ks) w = Sweep.run longest 0 ks ((w.pivot k).eliminate k k) :=
  Sweep.run_eliminate h

theorem pivotedQr_jacobian : ∃ h, jacobian.pivotedQr 0 = ⟨swept, .fullRank, 2, h⟩ := by
  have hlongest : jacobian.columns.foldl (fun l c => max l (Geometry.norm c)) 0 = (5 : ℝ) := by
    change max (max 0 (Geometry.norm #v[(5 : ℝ), 0])) (Geometry.norm #v[(-3 : ℝ), 4]) = 5
    rw [norm_columns.1, norm_columns.2]
    norm_num
  have hfresh : 1 ≤ fresh.tailNorm 0 := by
    rw [tailNorm_fresh]
    norm_num
  have hhalved : 1 ≤ halved.tailNorm 1 := by
    rw [tailNorm_halved]
    norm_num
  have hfirst : Sweep.run 5 0 [(0 : Fin 2), (1 : Fin 2)] fresh =
      Sweep.run 5 0 [(1 : Fin 2)] halved := by
    rw [run_cons (by rw [pivot_fresh, obstacle_eq_none hfresh]), pivot_fresh, eliminate_fresh]
  have hpivot : halved.pivot 1 = halved := rfl
  have hsecond : Sweep.run 5 0 [(1 : Fin 2)] halved = Sweep.run 5 0 [] swept := by
    rw [run_cons (by rw [hpivot, obstacle_eq_none hhalved]), hpivot, eliminate_halved]
  have hlist : List.finRange (min 2 2) = [(0 : Fin 2), (1 : Fin 2)] := rfl
  unfold Dense.pivotedQr
  rw [hlongest, start_jacobian, hlist, hfirst, hsecond]
  exact ⟨_, rfl⟩

noncomputable def normal : Symmetric ℝ 2 := ⟨⟨#v[25, -15, 25]⟩⟩

theorem normalMatrix_jacobian : (jacobian.pivotedQr 0).normalMatrix = normal := by
  obtain ⟨h, hqr⟩ := pivotedQr_jacobian
  have htriangle : (⟨swept, .fullRank, 2, h⟩ : PivotedQr ℝ 2 2).rTranspose =
      ⟨⟨#v[-5, 3, -4]⟩⟩ := rfl
  have hproduct : (⟨⟨#v[-5, 3, -4]⟩⟩ : Lower ℝ 2).timesTranspose =
      ⟨⟨#v[0 + -5 * -5, 0 + 3 * -5, 0 + 3 * 3 + -4 * -4]⟩⟩ := rfl
  have hpermuted (a b c : ℝ) : (⟨⟨#v[a, b, c]⟩⟩ : Symmetric ℝ 2).permuted #v[0, 1] =
      ⟨⟨#v[a, b, c]⟩⟩ := rfl
  have hpermutation : (⟨swept, .fullRank, 2, h⟩ : PivotedQr ℝ 2 2).sweep.permutation =
      #v[0, 1] := rfl
  rw [hqr, PivotedQr.normalMatrix, htriangle, hproduct, hpermutation, hpermuted, normal]
  norm_num

theorem matrix_pair (a b c : ℝ) : (⟨⟨#v[a, b, c]⟩⟩ : Symmetric ℝ 2).matrix = !![a, b; b, c] := by
  ext i j
  fin_cases i <;> fin_cases j <;> rfl

theorem diagonallyScaled_normal :
    normal.diagonallyScaled #v[5, 5] = ⟨⟨#v[1, -(3 / 5), 1]⟩⟩ := by
  have hentries : normal.diagonallyScaled #v[5, 5] =
      ⟨⟨#v[25 / (5 * 5), -15 / (5 * 5), 25 / (5 * 5)]⟩⟩ := rfl
  have hdiagonal : (25 : ℝ) / (5 * 5) = 1 := by norm_num
  have hcoupling : (-15 : ℝ) / (5 * 5) = -(3 / 5) := by norm_num
  rw [hentries, hdiagonal, hcoupling]

theorem coords_pair (a b : ℝ) : coords #v[a, b] = ![a, b] := by
  funext i
  fin_cases i <;> rfl

theorem posDef_normal : normal.matrix.PosDef := by
  apply Symmetric.posDef_of_convex (show (0 : ℝ) < 10 by norm_num)
  intro v
  rw [normal, matrix_pair]
  simp only [dotProduct, mulVec, Fin.sum_univ_two, of_apply, cons_val_zero, cons_val_one]
  have hsquare := mul_self_nonneg (v 0 - v 1)
  linarith

theorem clear_normal : (normal.diagonallyScaled #v[5, 5]).Clear := by
  have hlargest : (normal.diagonallyScaled #v[5, 5]).maxAbs ≤ 1 := by
    apply Symmetric.maxAbs_le zero_le_one
    intro i j
    rw [← Symmetric.matrix_apply, diagonallyScaled_normal, matrix_pair]
    fin_cases i <;> fin_cases j <;> norm_num
  have hfactor : (0 : ℝ) ≤ singularFactor :=
    mul_nonneg (by norm_num) epsilon_pos.le
  apply Symmetric.clear_of_convex two_pos (show (0 : ℝ) < 2 / 5 by norm_num)
  · intro v
    rw [diagonallyScaled_normal, matrix_pair]
    simp only [dotProduct, mulVec, Fin.sum_univ_two, of_apply, cons_val_zero, cons_val_one]
    have hsquare := mul_self_nonneg (v 0 - v 1)
    linarith
  · exact (mul_le_of_le_one_right hfactor hlargest).trans_lt singularFactor_lt

theorem normal_mulVec : normal.matrix *ᵥ coords #v[-(15 / 16), -(1 / 16)] =
    -coords #v[45 / 2, -(25 / 2)] := by
  rw [normal, matrix_pair, coords_pair, coords_pair]
  funext i
  fin_cases i <;> norm_num [mulVec, dotProduct, Fin.sum_univ_two]

theorem norm_step_le : Geometry.norm (timesEach #v[-(15 / 16 : ℝ), -(1 / 16)] #v[5, 5]) ≤ 100 := by
  rw [norm_eq, Real.sqrt_le_left (by norm_num), coords_timesEach, coords_pair, coords_pair]
  norm_num [dotProduct, Fin.sum_univ_two]

theorem step_eq {c : Config ℝ} (hc : 0 ≤ c.phiMax) {m : StepMemory ℝ 2} (hm : m.isFresh = true) :
    (trustStep c normal #v[45 / 2, -(25 / 2)] #v[5, 5] 100 m).1.step =
      #v[-(15 / 16), -(1 / 16)] := by
  have hd (i : Fin 2) : 0 < (#v[(5 : ℝ), 5])[i] := by
    fin_cases i <;> exact (by norm_num : (0 : ℝ) < 5)
  have hnorm := norm_step_le
  exact (trustStep_whole hd hm posDef_normal clear_normal normal_mulVec (by linarith)).step

noncomputable def problem : Problem ℝ Unit 2 where
  evaluate x _ state :=
    (.ok ⟨#[5 * x[0] - 3 * x[1] + 9 / 2, 4 * x[1] + 1 / 4], some ⟨2, 2, jacobian⟩⟩, state)

noncomputable def config : Config ℝ := { Config.default with covariance := none }

noncomputable def lower : Option (Array (Scalar.Side ℝ)) := some #[some 0, some 0]

noncomputable def upper : Option (Array (Scalar.Side ℝ)) := some #[none, some 1]

noncomputable def box : Bounds ℝ 2 := ⟨some #v[some 0, some 0], some #v[none, some 1]⟩

noncomputable def setup : Setup ℝ Unit 2 := ⟨problem, some box, config⟩

noncomputable def start : Linearized ℝ 2 2 := ⟨#v[0, 0], #v[9 / 2, 1 / 4], jacobian⟩

theorem validate_config : config.validate 2 = .ok () := Config.validate_default 2

theorem isFinite_zero : Scalar.isFinite (0 : ℝ) = true := isFinite_of_le (by norm_num)

theorem checkInput_eq : checkInput #v[0, 0] lower upper config = .ok (some box) := by
  refine (checkInput_of_validate two_ne_zero validate_config fun i => ?_).trans ?_
  · fin_cases i <;> exact isFinite_zero
  · refine Bounds.make_toArray (b := box) rfl fun i => ?_
    fin_cases i
    · rfl
    · exact decide_eq_false (not_lt.mpr zero_le_one)

theorem project_eq {a b : ℝ} (ha : a ≤ 0) (hb : b ≤ 0) : box.project #v[a, b] = #v[0, 0] := by
  have hclamp {a : ℝ} (ha : a ≤ 0) : Bounds.clampLow 0 a = 0 := by
    unfold Bounds.clampLow
    split
    · rfl
    · next hnot => exact le_antisymm ha (not_lt.mp hnot)
  have hentries : box.project #v[a, b] =
      #v[Bounds.clampLow 0 a, Bounds.clampHigh 1 (Bounds.clampLow 0 b)] := rfl
  have hhigh : Bounds.clampHigh 1 0 = (0 : ℝ) := if_neg (not_lt.mpr zero_le_one)
  rw [hentries, hclamp ha, hclamp hb, hhigh]

theorem objective_start : objective start.residuals = 325 / 32 := by
  have hsum : normSq start.residuals = 9 / 2 * (9 / 2) + 1 / 4 * (1 / 4) := dot_pair _ _ _ _
  rw [objective, hsum]
  norm_num

theorem evaluate_origin (mode : Mode) : problem.evaluate #v[0, 0] mode () =
    (.ok ⟨#[9 / 2, 1 / 4], some ⟨2, 2, jacobian⟩⟩, ()) := by
  have hfirst : (5 * 0 - 3 * 0 + 9 / 2 : ℝ) = 9 / 2 := by norm_num
  have hsecond : (4 * 0 + 1 / 4 : ℝ) = 1 / 4 := by norm_num
  rw [← hfirst, ← hsecond]
  rfl

theorem checkedResiduals_start : checkedResiduals 2 #[(9 / 2 : ℝ), 1 / 4] =
    .ok start.residuals := by
  have hfirst : Scalar.isFinite (9 / 2 : ℝ) = true := isFinite_of_le (by norm_num)
  have hsecond : Scalar.isFinite (1 / 4 : ℝ) = true := isFinite_of_le (by norm_num)
  have hall : (#[(9 / 2 : ℝ), 1 / 4]).all Scalar.isFinite = true := by
    simp [hfirst, -one_div, hsecond]
  have hsize : (#[(9 / 2 : ℝ), 1 / 4]).size = 2 := rfl
  unfold checkedResiduals
  rw [dif_pos hsize, if_pos hall]
  rfl

theorem all_jacobian : jacobian.all Scalar.isFinite = true := by
  have hsmall {x : ℝ} (hx : |x| ≤ 100) : Scalar.isFinite x = true := isFinite_of_le hx
  have hall : jacobian.all Scalar.isFinite = (Scalar.isFinite (5 : ℝ) &&
      Scalar.isFinite (0 : ℝ) && (Scalar.isFinite (-3 : ℝ) && Scalar.isFinite (4 : ℝ))) := by
    simp [jacobian, Dense.all]
  rw [hall, hsmall (by norm_num), hsmall (by norm_num), hsmall (by norm_num),
    hsmall (by norm_num)]
  rfl

theorem begun : Begun problem #v[0, 0] lower upper config () setup
    (.start config start ()) := by
  have hplace : (setup.bounds.map (·.project #v[0, 0])).getD #v[0, 0] = #v[(0 : ℝ), 0] :=
    project_eq le_rfl le_rfl
  refine ⟨rfl, rfl, checkInput_eq, ⟨#[9 / 2, 1 / 4], some ⟨2, 2, jacobian⟩⟩, start, (), ?_, ?_,
    rfl⟩
  · rw [hplace]
    exact evaluate_origin .jacobian
  · rw [hplace]
    refine firstPoint_of_finite (e := ⟨#[9 / 2, 1 / 4], some ⟨2, 2, jacobian⟩⟩) le_rfl rfl
      ⟨?_, ?_⟩
    · change Scalar.isFinite (objective start.residuals) = true
      rw [objective_start]
      exact isFinite_of_le (by norm_num)
    · exact all_jacobian

noncomputable def first : Head ℝ Unit 2 2 := setup.opening (.start config start ())

theorem first_run : ∃ warnings, first.run =
    (Run.rescale config true { (Run.start config start ()) with
      iterations := 1
      warnings }).openIteration :=
  setup.opening_first rfl

theorem first_gradient : first.gradient = #v[45 / 2, -(25 / 2)] := by
  have hentries : start.gradient =
      #v[dot #v[5, 0] #v[9 / 2, 1 / 4], dot #v[-3, 4] #v[9 / 2, 1 / 4]] := by
    simp only [Linearized.gradient, Dense.transposeMulVec, start, jacobian, Vector.map_mk,
      List.map_toArray, List.map_cons, List.map_nil]
  have hsecond : (-3 : ℝ) * (9 / 2) + 4 * (1 / 4) = -(25 / 2) := by norm_num
  have hfirst : (5 : ℝ) * (9 / 2) + 0 * (1 / 4) = 45 / 2 := by norm_num
  change start.gradient = _
  rw [hentries, dot_pair, dot_pair, hfirst, hsecond]

theorem updateScale_eq : config.updateScale jacobian none true (config.scaleMode.initial 2) =
    #v[5, 5] := by
  have hentry (column : Vector ℝ 2) (hcolumn : Geometry.norm column = 5) (d : ℝ) :
      config.scaleEntry column 0 0 d = 5 := by
    have hroot : Scalar.sqrt ((5 : ℝ) * 5 + 0) = 5 := by
      rw [add_zero]
      exact Real.sqrt_mul_self (by norm_num)
    have hfloor : ¬(5 : ℝ) < config.scaleFloor := by
      change ¬(5 : ℝ) < 1 / 1000000
      norm_num
    unfold Config.scaleEntry
    dsimp only
    rw [hcolumn, hroot, zero_mul, max_eq_left (by norm_num), if_neg hfloor]
  have hentries : config.updateScale jacobian none true (config.scaleMode.initial 2) =
      #v[config.scaleEntry #v[5, 0] 0 0 1, config.scaleEntry #v[-3, 4] 0 0 1] := rfl
  rw [hentries, hentry _ norm_columns.1, hentry _ norm_columns.2]

theorem first_step : (setup.unclamped first).1.step = #v[-(15 / 16), -(1 / 16)] := by
  obtain ⟨warnings, hfirst⟩ := first_run
  have hscale : first.run.search.iterate.d = #v[5, 5] := by
    rw [hfirst]
    exact updateScale_eq
  have hradius : first.run.search.iterate.radius = 100 := by
    rw [hfirst]
    rfl
  have hhessian : first.run.hessian first.normal = normal := by
    have hnormal : first.normal = normal := normalMatrix_jacobian
    rw [hfirst, hnormal]
    rfl
  have hfresh : (Setup.remembered first.run).isFresh = true := by
    rw [hfirst]
    rfl
  have hphi : 0 ≤ setup.config.phiMax := (Config.ranges_of_validate validate_config).2.1.2.2
  rw [Setup.unclamped, hscale, hradius, hhessian, first_gradient]
  exact step_eq hphi hfresh

theorem first_place : first.run.search.iterate.x₀ = #v[0, 0] := by
  obtain ⟨warnings, hfirst⟩ := first_run
  rw [hfirst]
  rfl

theorem first_stalls : setup.Stalls first box := by
  refine ⟨rfl, ?_⟩
  have hsum : (#v[0, 0] + #v[-(15 / 16), -(1 / 16)] : Vector ℝ 2) =
      #v[0 + -(15 / 16), 0 + -(1 / 16)] := by
    apply coords_injective
    rw [coords_add, coords_pair, coords_pair, coords_pair]
    funext i
    fin_cases i <;> rfl
  rw [first_step, first_place, hsum]
  exact project_eq (by norm_num) (by norm_num)

theorem first_rests : setup.Rests first := by
  obtain ⟨warnings, hfirst⟩ := first_run
  have hmoves : (setup.unclamped first).1.step ≠ Vector.replicate 2 0 := by
    intro hzero
    have hentry := congrArg (fun v : Vector ℝ 2 => v[0]) (first_step.symm.trans hzero)
    have hentry : -(15 / 16 : ℝ) = 0 := hentry
    norm_num at hentry
  refine ⟨?_, ?_, hmoves, ?_⟩
  · rw [hfirst]
    exact .inr rfl
  · unfold Setup.Continues
    rw [hfirst]
    change (1 : Nat) < 200
    decide
  · have htarget : setup.target first = #v[0, 0] := by
      have hstep := (setup.clamped_rests first_stalls hmoves).1
      apply coords_injective
      rw [Setup.target, hstep, first_place, coords_add, coords_replicate_zero, add_zero]
    have hanswer : (setup.answer first).1 = .ok start.residuals := by
      unfold Setup.answer
      rw [htarget]
      have hevaluate : (setup.problem.evaluate #v[0, 0] .residuals first.run.account.state).1 =
          .ok ⟨#[9 / 2, 1 / 4], some ⟨2, 2, jacobian⟩⟩ :=
        congrArg Prod.fst (evaluate_origin .residuals)
      change (setup.problem.evaluate #v[0, 0] .residuals first.run.account.state).1 >>= _ = _
      rw [hevaluate]
      exact checkedResiduals_start
    have hfinite : Scalar.isFinite (objective start.residuals) = true := by
      rw [objective_start]
      exact isFinite_of_le (by norm_num)
    unfold Setup.value Setup.found
    rw [hanswer]
    dsimp only
    rw [if_pos hfinite, hfirst]
    rfl

end Corner

end LeastSquares
