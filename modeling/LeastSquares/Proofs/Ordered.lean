import LeastSquares.Proofs.Exact

namespace LeastSquares

open Float.Model (UnpackedFloat)

/-- Finite numbers compare as numbers do, though nothing is known of the others. -/
class Scalar.Ordered (α : Type) [Scalar α] : Prop where
  isFinite_zero : isFinite (0 : α) = true
  isFinite_huge : isFinite (huge : α) = true
  lt_irrefl {a : α} : isFinite a = true → ¬a < a
  lt_of_not_le {a b : α} : isFinite a = true → isFinite b = true → ¬a ≤ b → b < a

instance : Scalar.Ordered ℝ where
  isFinite_zero := isFinite_iff.mpr (by rw [abs_zero]; exact huge_pos.le)
  isFinite_huge := isFinite_iff.mpr (abs_of_pos huge_pos).le
  lt_irrefl _ := not_lt.mpr le_rfl
  lt_of_not_le _ _ := not_le.mp

theorem compare_self {a : UnpackedFloat} (ha : a.isFinite = true) : a.compare a = some .eq := by
  cases a with
  | infinity | notANumber => cases ha
  | zero => rfl
  | finite sign m e =>
    have heq : (compare e e).then (compare m m) = .eq := by
      rw [compare_eq_iff_eq.mpr rfl, compare_eq_iff_eq.mpr rfl]
      rfl
    cases sign
    · exact congrArg (fun o : Ordering => some o.swap) heq
    · exact congrArg some heq

theorem compare_swap {a b : UnpackedFloat} (ha : a.isFinite = true) (hb : b.isFinite = true) :
    ∃ o, a.compare b = some o ∧ b.compare a = some o.swap := by
  cases a with
  | infinity | notANumber => cases ha
  | zero =>
    cases b with
    | infinity | notANumber => cases hb
    | zero => exact ⟨.eq, rfl, rfl⟩
    | finite sign => cases sign <;> exact ⟨_, rfl, rfl⟩
  | finite sign m e =>
    cases b with
    | infinity | notANumber => cases hb
    | zero => cases sign <;> exact ⟨_, rfl, rfl⟩
    | finite sign' m' e' =>
      have hswap : (compare e' e).then (compare m' m) =
          ((compare e e').then (compare m m')).swap := by
        rw [Ordering.swap_then, Int.compare_swap, Nat.compare_swap]
      cases sign <;> cases sign'
      · refine ⟨_, rfl, ?_⟩
        exact congrArg (fun o : Ordering => some o.swap) hswap
      · exact ⟨_, rfl, rfl⟩
      · exact ⟨_, rfl, rfl⟩
      · exact ⟨_, rfl, congrArg some hswap⟩

theorem float_lt_iff {a b : Float} :
    a < b ↔ a.toModel.unpack.compare b.toModel.unpack = some .lt := by
  change decide ((a.toModel.unpack.compare b.toModel.unpack == some .lt) = true) = true ↔ _
  rw [decide_eq_true_iff, beq_iff_eq]

theorem float_le_iff {a b : Float} :
    a ≤ b ↔ (a.toModel.unpack.compare b.toModel.unpack).any (·.isLE) = true := by
  change decide ((a.toModel.unpack.compare b.toModel.unpack).any (·.isLE) = true) = true ↔ _
  rw [decide_eq_true_iff]

instance : Scalar.Ordered Float where
  isFinite_zero := by decide +kernel
  isFinite_huge := by decide +kernel
  lt_irrefl {a} ha hlt := by
    have heq : a.toModel.unpack.compare a.toModel.unpack = some .eq := compare_self ha
    rw [float_lt_iff.mp hlt] at heq
    cases heq
  lt_of_not_le {a b} ha hb hle := by
    obtain ⟨o, hab, hba⟩ := compare_swap (a := a.toModel.unpack) (b := b.toModel.unpack) ha hb
    refine float_lt_iff.mpr ?_
    rw [hba]
    cases o with
    | gt => rfl
    | lt | eq => exact absurd (float_le_iff.mpr (by rw [hab]; rfl)) hle

end LeastSquares
