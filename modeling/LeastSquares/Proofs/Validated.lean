import LeastSquares.Config.Validation
import LeastSquares.Proofs.Exact

namespace LeastSquares

namespace Config

variable {α : Type} [Scalar α] {c : Config α} {p : Nat}

theorem faults_of_validate (h : c.validate p = .ok ()) :
    c.fieldFault? = none ∧ c.rangeFault? = none ∧ c.scaleFault? p = none ∧ c.logFault? = none := by
  have hnone : c.fault? p = none := by
    unfold validate at h
    split at h
    · cases h
    · assumption
  simpa [fault?] using hnone

theorem fields_of_validate (h : c.validate p = .ok ()) :
    (∀ f ∈ nonnegativeFields, isNonnegative (c.value f) = true) ∧
      ∀ f ∈ positiveFields, isPositive (c.value f) = true := by
  have hfield := (faults_of_validate h).1
  unfold fieldFault? at hfield
  split at hfield
  · cases hfield
  · next hnonneg =>
    rw [Option.map_eq_none_iff, List.find?_eq_none] at hfield
    rw [List.find?_eq_none] at hnonneg
    constructor
    · intro f hf
      simpa using hnonneg f hf
    · intro f hf
      simpa using hfield f hf

theorem nonneg_of_validate (h : c.validate p = .ok ()) {f : Field} (hf : f ∈ nonnegativeFields) :
    0 ≤ c.value f := by
  have hv := (fields_of_validate h).1 f hf
  rw [isNonnegative, Bool.and_eq_true] at hv
  exact of_decide_eq_true hv.1

theorem pos_of_validate (h : c.validate p = .ok ()) {f : Field} (hf : f ∈ positiveFields) :
    0 < c.value f := by
  have hv := (fields_of_validate h).2 f hf
  rw [isPositive, Bool.and_eq_true] at hv
  exact of_decide_eq_true hv.1

theorem ranges_of_validate (h : c.validate p = .ok ()) :
    ¬1 ≤ c.decreaseFactor ∧ (-1 < c.phiMin ∧ c.phiMin ≤ 0 ∧ 0 ≤ c.phiMax) ∧
      ¬(c.maxFunctionEvals = 0 ∨ c.maxIterations = 0) ∧ c.hebdenIterationLimit ≠ 0 := by
  have hrange := (faults_of_validate h).2.1
  unfold rangeFault? at hrange
  split at hrange
  · cases hrange
  next hdecrease =>
  split at hrange
  · cases hrange
  next hphi =>
  split at hrange
  · cases hrange
  next hlimits =>
  split at hrange
  · cases hrange
  next hhebden =>
  exact ⟨hdecrease, Decidable.not_not.mp hphi, hlimits, hhebden⟩

theorem validate_of_fields (hfields : (∀ f ∈ nonnegativeFields, isNonnegative (c.value f) = true) ∧
      ∀ f ∈ positiveFields, isPositive (c.value f) = true)
    (hranges : ¬1 ≤ c.decreaseFactor ∧ (-1 < c.phiMin ∧ c.phiMin ≤ 0 ∧ 0 ≤ c.phiMax) ∧
      ¬(c.maxFunctionEvals = 0 ∨ c.maxIterations = 0) ∧ c.hebdenIterationLimit ≠ 0)
    (hscale : c.scaleFault? p = none) (hlog : c.logFault? = none) : c.validate p = .ok () := by
  have hnonneg : nonnegativeFields.find? (fun f => !isNonnegative (c.value f)) = none := by
    rw [List.find?_eq_none]
    intro f hf
    simp [hfields.1 f hf]
  have hpos : positiveFields.find? (fun f => !isPositive (c.value f)) = none := by
    rw [List.find?_eq_none]
    intro f hf
    simp [hfields.2 f hf]
  have hfield : c.fieldFault? = none := by
    rw [fieldFault?, hnonneg]
    simp [hpos]
  have hrange : c.rangeFault? = none := by
    obtain ⟨hdecrease, hphi, hlimits, hhebden⟩ := hranges
    rw [rangeFault?, if_neg hdecrease, if_neg (not_not_intro hphi), if_neg hlimits, if_neg hhebden]
  have hfault : c.fault? p = none := by
    simp [fault?, hfield, hrange, hscale, hlog]
  rw [validate, hfault]

end Config

section Default

theorem isFinite_of_le {x : ℝ} (h : |x| ≤ 100) : Scalar.isFinite x = true := by
  rw [isFinite_iff]
  have hpow : (2 : ℝ) ^ 7 ≤ 2 ^ 1023 := pow_le_pow_right₀ (by norm_num) (by norm_num)
  have hfactor : (1 : ℝ) ≤ 2 - 2⁻¹ ^ 52 := by norm_num
  calc |x| ≤ 1 * 2 ^ 7 := h.trans (by norm_num)
    _ ≤ (2 - 2⁻¹ ^ 52) * 2 ^ 1023 := mul_le_mul hfactor hpow (by norm_num) (by linarith)

theorem epsilon_le : (Scalar.epsilon : ℝ) ≤ 1 / 100 := by
  change (2⁻¹ : ℝ) ^ 52 ≤ 1 / 100
  norm_num

theorem Config.default_value_mem (f : Field) :
    (Config.default : Config ℝ).value f ∈ Set.Ioc 0 100 := by
  have hpos := epsilon_pos
  have hle := epsilon_le
  have hroot : Scalar.sqrt Scalar.epsilon ∈ Set.Ioc (0 : ℝ) 100 := by
    refine ⟨Real.sqrt_pos.mpr hpos, ?_⟩
    rw [sqrt_eq, Real.sqrt_le_left (by norm_num)]
    linarith
  cases f with
  | absFuncTol => exact ⟨mul_pos hpos hpos, by simp only [value, default]; nlinarith⟩
  | xConvergeTol | fdGradientStep | fdJacobianStep => exact hroot
  | falseConvergeTol => simp only [value, default, Set.mem_Ioc]; constructor <;> linarith
  | cosineMin =>
    simp only [value, default, Set.mem_Ioc, lt_max_iff, max_le_iff]
    exact ⟨.inl (by norm_num), by norm_num, by linarith⟩
  | _ => simp only [value, default, Set.mem_Ioc]; norm_num

theorem Config.fields_of_mem {c : Config ℝ} (h : ∀ f, c.value f ∈ Set.Ioc 0 100) :
    (∀ f ∈ nonnegativeFields, isNonnegative (c.value f) = true) ∧
      ∀ f ∈ positiveFields, isPositive (c.value f) = true := by
  have hfinite (f : Field) : Scalar.isFinite (c.value f) = true := by
    obtain ⟨hpos, hle⟩ := h f
    exact isFinite_of_le (abs_le.mpr ⟨by linarith, hle⟩)
  constructor
  · intro f _
    rw [isNonnegative, decide_eq_true (h f).1.le, hfinite f]
    rfl
  · intro f _
    rw [isPositive, decide_eq_true (h f).1, hfinite f]
    rfl

theorem Config.validate_default (p : Nat) : (Config.default : Config ℝ).validate p = .ok () := by
  refine validate_of_fields (fields_of_mem default_value_mem) ?_ rfl rfl
  simp only [default]
  norm_num

end Default

end LeastSquares
