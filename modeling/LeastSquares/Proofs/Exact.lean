import LeastSquares.Length
import Mathlib.Analysis.Real.Sqrt
import Mathlib.Algebra.BigOperators.Fin

namespace LeastSquares

attribute [instance (50)] Scalar.toNatCast Scalar.toZero Scalar.toOne Scalar.toAdd Scalar.toSub
  Scalar.toMul Scalar.toDiv Scalar.toNeg Scalar.toLT Scalar.toLE Scalar.toMax Scalar.toMin

/-- Exact arithmetic in the place of doubles. Every number is a number, and those beyond the
largest double are the ones that are not finite. -/
noncomputable instance : Scalar ℝ where
  beq a b := decide (a = b)
  ltDecidable := inferInstance
  leDecidable := inferInstance
  abs x := |x|
  sqrt := Real.sqrt
  isNaN _ := false
  isFinite x := decide (|x| ≤ (2 - 2⁻¹ ^ 52) * 2 ^ 1023)
  isNegative x := decide (x < 0)
  epsilon := 2⁻¹ ^ 52
  tiny := 2⁻¹ ^ 1022
  huge := (2 - 2⁻¹ ^ 52) * 2 ^ 1023
  Side := Option ℝ
  side? := id

noncomputable instance : Geometry ℝ where
  norm {n} v := √(∑ i : Fin n, v[i] ^ 2)
  inner {n} x y := ∑ i : Fin n, x[i] * y[i]

theorem beq_iff {a b : ℝ} : (a == b) = true ↔ a = b := decide_eq_true_iff

instance lawfulBEqReal : LawfulBEq ℝ where
  eq_of_beq := beq_iff.mp
  rfl := beq_iff.mpr rfl

theorem abs_eq (x : ℝ) : Scalar.abs x = |x| := rfl

theorem sqrt_eq (x : ℝ) : Scalar.sqrt x = √x := rfl

theorem isFinite_iff {x : ℝ} : Scalar.isFinite x = true ↔ |x| ≤ (Scalar.huge : ℝ) :=
  decide_eq_true_iff

theorem huge_pos : (0 : ℝ) < Scalar.huge := by
  change (0 : ℝ) < (2 - 2⁻¹ ^ 52) * 2 ^ 1023
  norm_num

theorem epsilon_pos : (0 : ℝ) < Scalar.epsilon := by
  change (0 : ℝ) < 2⁻¹ ^ 52
  positivity

theorem sqrtTiny_pos : (0 : ℝ) < sqrtTiny := by
  change 0 < √(2⁻¹ ^ 1022)
  positivity

theorem sqrtTiny_lt_one : (sqrtTiny : ℝ) < 1 := by
  change √(2⁻¹ ^ 1022) < 1
  rw [Real.sqrt_lt' one_pos, one_pow]
  exact pow_lt_one₀ (by norm_num) (by norm_num) (by norm_num)

end LeastSquares
