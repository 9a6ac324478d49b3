import LeastSquares.Bounds
import LeastSquares.Proofs.Linear.Coordinates
import Mathlib.Data.EReal.Inv

namespace LeastSquares

variable {n p : Nat}

/-- Exact arithmetic with the two infinities, which stand for sides that bound nothing. Only finite
numbers have a root or are large or small. -/
noncomputable instance : Scalar EReal where
  beq a b := decide (a = b)
  ltDecidable := inferInstance
  leDecidable := inferInstance
  abs a := max a (-a)
  sqrt a := ((Scalar.sqrt a.toReal : ℝ) : EReal)
  isNaN _ := false
  isFinite a := decide (a ≠ ⊤ ∧ a ≠ ⊥) && Scalar.isFinite a.toReal
  isNegative a := decide (a < 0)
  epsilon := ((Scalar.epsilon : ℝ) : EReal)
  tiny := ((Scalar.tiny : ℝ) : EReal)
  huge := ((Scalar.huge : ℝ) : EReal)
  Side := EReal
  side? := some

noncomputable instance : Geometry EReal where
  norm v := ((Geometry.norm (v.map EReal.toReal) : ℝ) : EReal)
  inner x y := ((Geometry.inner (x.map EReal.toReal) (y.map EReal.toReal) : ℝ) : EReal)

theorem beq_ereal_iff {a b : EReal} : (a == b) = true ↔ a = b := decide_eq_true_iff

instance lawfulBEqEReal : LawfulBEq EReal where
  eq_of_beq := beq_ereal_iff.mp
  rfl := beq_ereal_iff.mpr rfl

def liftCoords (x : Vector ℝ n) : Vector EReal n := x.map Real.toEReal

theorem getElem_liftCoords (x : Vector ℝ n) (i : Fin n) : (liftCoords x)[i] = (x[i] : EReal) :=
  Vector.getElem_map _ _

theorem liftCoords_injective : Function.Injective (liftCoords : Vector ℝ n → Vector EReal n) := by
  intro x y h
  apply Vector.ext
  intro i hi
  have hplace := congrArg (fun v : Vector EReal n => v[(⟨i, hi⟩ : Fin n)]) h
  rw [getElem_liftCoords, getElem_liftCoords] at hplace
  exact EReal.coe_injective hplace

theorem liftCoords_add (x y : Vector ℝ n) : liftCoords x + liftCoords y = liftCoords (x + y) := by
  apply Vector.ext
  intro i hi
  simp [liftCoords]

theorem liftCoords_sub (x y : Vector ℝ n) : liftCoords x - liftCoords y = liftCoords (x - y) := by
  apply Vector.ext
  intro i hi
  simp [liftCoords]

theorem liftCoords_timesEach (x y : Vector ℝ n) :
    timesEach (liftCoords x) (liftCoords y) = liftCoords (timesEach x y) := by
  apply Vector.ext
  intro i hi
  simp [liftCoords, timesEach]

theorem norm_liftCoords (x : Vector ℝ n) :
    Geometry.norm (liftCoords x) = Real.toEReal (Geometry.norm x) := by
  have hback : (liftCoords x).map EReal.toReal = x := by
    apply Vector.ext
    intro i hi
    simp [liftCoords]
  change Real.toEReal (Geometry.norm ((liftCoords x).map EReal.toReal)) = _
  rw [hback]

theorem fin_foldl_coe (f : Fin n → ℝ) (a : ℝ) :
    Fin.foldl n (fun s i => s + (f i : EReal)) (a : EReal) =
      ((Fin.foldl n (fun s i => s + f i) a : ℝ) : EReal) := by
  induction n generalizing a with
  | zero => simp
  | succ n ih => rw [Fin.foldl_succ, Fin.foldl_succ, ← EReal.coe_add, ih]

theorem dot_liftCoords (x y : Vector ℝ n) :
    dot (liftCoords x) (liftCoords y) = Real.toEReal (dot x y) := by
  have hplace (z : Vector ℝ n) (i : Nat) (hi : i < n) : (liftCoords z)[i] = (z[i] : EReal) :=
    getElem_liftCoords z ⟨i, hi⟩
  have hlane (k : Nat) (hk : k < 8) :
      lane (liftCoords x) (liftCoords y) k hk = Real.toEReal (lane x y k hk) := by
    unfold lane
    simp only [hplace, ← EReal.coe_mul]
    exact fin_foldl_coe _ 0
  unfold dot
  simp only [hplace, hlane, ← EReal.coe_mul]
  exact fin_foldl_coe _ _

theorem sumOver_coe (l : List (Fin n)) (f : Fin n → ℝ) :
    sumOver l (fun i => (f i : EReal)) = Real.toEReal (sumOver l f) := by
  have h (a : ℝ) : l.foldl (fun s i => s + (f i : EReal)) (a : EReal) =
      ((l.foldl (fun s i => s + f i) a : ℝ) : EReal) := by
    induction l generalizing a with
    | nil => rfl
    | cons i l ih => rw [List.foldl_cons, List.foldl_cons, ← EReal.coe_add, ih]
  exact h 0

namespace Symmetric

def lifted (a : Symmetric ℝ n) : Symmetric EReal n := ⟨⟨a.lower.entries.map Real.toEReal⟩⟩

theorem get_lifted (a : Symmetric ℝ n) (i j : Fin n) : a.lifted.get i j = (a.get i j : EReal) := by
  unfold get
  split
  · exact Vector.getElem_map _ _
  · exact Vector.getElem_map _ _

theorem mulVec_lifted (a : Symmetric ℝ n) (x : Vector ℝ n) :
    a.lifted.mulVec (liftCoords x) = liftCoords (a.mulVec x) := by
  apply Vector.ext
  intro i hi
  simp only [mulVec, Vector.getElem_ofFn, get_lifted, getElem_liftCoords, ← EReal.coe_mul,
    sumOver_coe]
  simp only [liftCoords, Vector.getElem_map, Vector.getElem_ofFn]

theorem quadraticForm_lifted (a : Symmetric ℝ n) (x : Vector ℝ n) :
    a.lifted.quadraticForm (liftCoords x) = Real.toEReal (a.quadraticForm x) := by
  rw [quadraticForm, mulVec_lifted, dot_liftCoords]
  rfl

end Symmetric

namespace Trial

noncomputable def lifted (t : Trial ℝ p) : Trial EReal p where
  step := liftCoords t.step
  length := t.length
  slope := t.slope
  reduction := t.reduction
  newtonReduction := t.newtonReduction
  parameter := t.parameter
  newtonLength := t.newtonLength

theorem rescored_lifted (t : Trial ℝ p) (g : Vector ℝ p) (h : Symmetric ℝ p) (d step : Vector ℝ p) :
    t.lifted.rescored (liftCoords g) h.lifted (liftCoords d) (liftCoords step) =
      (t.rescored g h d step).lifted := by
  have hzero (a : ℝ) : ((a : EReal) == 0) = (a == 0) := by
    rw [Bool.eq_iff_iff, beq_iff_eq, beq_iff_eq, EReal.coe_eq_zero]
  unfold rescored
  dsimp only
  rw [liftCoords_timesEach, norm_liftCoords, dot_liftCoords, Symmetric.quadraticForm_lifted, hzero]
  have hreduction (a b : ℝ) : max (-((a : EReal) + 1 / 2 * b)) 0 =
      Real.toEReal (max (-(a + 1 / 2 * b)) 0) := by
    rw [EReal.coe_strictMono.monotone.map_max]
    rfl
  split
  · rfl
  · rw [hreduction]
    rfl

end Trial

namespace Bounds

noncomputable def lifted (b : Bounds ℝ p) : Bounds EReal p where
  lower := b.lower.map fun l => l.map fun a => (Scalar.side? a).elim (⊥ : EReal) Real.toEReal
  upper := b.upper.map fun u => u.map fun a => (Scalar.side? a).elim (⊤ : EReal) Real.toEReal

theorem clampLow_coe (l x : ℝ) : clampLow (l : EReal) x = Real.toEReal (clampLow l x) := by
  unfold clampLow
  rw [apply_ite Real.toEReal]
  exact if_congr EReal.coe_lt_coe_iff rfl rfl

theorem clampHigh_coe (u x : ℝ) : clampHigh (u : EReal) x = Real.toEReal (clampHigh u x) := by
  unfold clampHigh
  rw [apply_ite Real.toEReal]
  exact if_congr EReal.coe_lt_coe_iff rfl rfl

theorem floor?_lifted (b : Bounds ℝ p) (i : Fin p) :
    (b.lifted.floor? i).getD ⊥ = (b.floor? i).elim ⊥ Real.toEReal := by
  obtain ⟨lower, upper⟩ := b
  cases lower with
  | none => rfl
  | some l => simp [floor?, lifted, Scalar.side?]

theorem ceiling?_lifted (b : Bounds ℝ p) (i : Fin p) :
    (b.lifted.ceiling? i).getD ⊤ = (b.ceiling? i).elim ⊤ Real.toEReal := by
  obtain ⟨lower, upper⟩ := b
  cases upper with
  | none => rfl
  | some u => simp [ceiling?, lifted, Scalar.side?]

theorem elim_clampLow (l : Option EReal) (y : EReal) :
    l.elim y (clampLow · y) = clampLow (l.getD ⊥) y := by
  cases l with
  | none => exact (if_neg not_lt_bot).symm
  | some l => rfl

theorem elim_clampHigh (u : Option EReal) (y : EReal) :
    u.elim y (clampHigh · y) = clampHigh (u.getD ⊤) y := by
  cases u with
  | none => exact (if_neg not_top_lt).symm
  | some u => rfl

theorem clampLow_elim (l : Option ℝ) (y : ℝ) :
    clampLow (l.elim ⊥ Real.toEReal) (y : EReal) = Real.toEReal (l.elim y (clampLow · y)) := by
  cases l with
  | none => exact if_neg not_lt_bot
  | some l => exact clampLow_coe l y

theorem clampHigh_elim (u : Option ℝ) (y : ℝ) :
    clampHigh (u.elim ⊤ Real.toEReal) (y : EReal) = Real.toEReal (u.elim y (clampHigh · y)) := by
  cases u with
  | none => exact if_neg not_top_lt
  | some u => exact clampHigh_coe u y

theorem project_lifted (b : Bounds ℝ p) (x : Vector ℝ p) :
    b.lifted.project (liftCoords x) = liftCoords (b.project x) := by
  apply Vector.ext
  intro i hi
  have hplace (z : Vector ℝ p) : (liftCoords z)[i] = (z[i] : EReal) :=
    getElem_liftCoords z ⟨i, hi⟩
  simp only [project, Vector.getElem_ofFn, elim_clampLow, elim_clampHigh, floor?_lifted,
    ceiling?_lifted, hplace, getElem_place, clampLow_elim, clampHigh_elim]

end Bounds

end LeastSquares
