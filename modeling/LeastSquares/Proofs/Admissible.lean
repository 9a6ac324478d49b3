import LeastSquares.Proofs.Mirrored
import LeastSquares.Proofs.Validated

namespace LeastSquares

open Float.Model (UnpackedFloat Format)
open Float.Model.UnpackedFloat (unpackSign Sign)

section Signs

variable {v w : Float}

def sign? : UnpackedFloat → Option Sign
  | .notANumber => none
  | .zero s | .infinity s | .finite s _ _ _ => some s

theorem sign?_unpack (spec : Format) (b : BitVec spec.numBits)
    (h : (UnpackedFloat.unpack spec b).isNaN = false) :
    sign? (.unpack spec b) = some (.ofBitVec (unpackSign b)) := by
  unfold UnpackedFloat.unpack at h ⊢
  dsimp only at h ⊢
  split
  · split
    · rfl
    · next hexponent hmantissa =>
      rw [if_pos hexponent, if_neg hmantissa] at h
      cases h
  · split
    · split <;> rfl
    · rfl

theorem isNegative_iff :
    Scalar.isNegative v = true ↔ @unpackSign .binary64 v.toModel.toBits.toBitVec ≠ 0#1 := by
  let b := v.toModel.toBits.toBitVec
  have hle : Scalar.isNegative v = true ↔ 2 ^ 63 ≤ b.toNat := decide_eq_true_iff
  have hlt : b.toNat < 2 ^ 64 := b.isLt
  change _ ↔ (b.extractLsb 63 63).cast _ ≠ 0#1
  rw [hle, ← BitVec.toNat_ne_iff_ne]
  simp [Nat.shiftRight_eq_div_pow]
  omega

theorem sign?_eq (h : Scalar.isNaN v = false) :
    sign? v.toModel.unpack = some (if Scalar.isNegative v then .negative else .positive) := by
  have hsign : sign? v.toModel.unpack = _ := sign?_unpack .binary64 v.toModel.toBits.toBitVec h
  rw [hsign, Sign.ofBitVec]
  by_cases hneg : Scalar.isNegative v = true
  · rw [if_pos hneg, if_neg (isNegative_iff.mp hneg)]
  · rw [if_neg hneg, if_pos (not_not.mp (isNegative_iff.not.mp hneg))]

theorem zero_le_iff : 0 ≤ v ↔ (v == 0) = true ∨ sign? v.toModel.unpack = some .positive := by
  rw [float_le_iff]
  change ((UnpackedFloat.zero .positive).compare v.toModel.unpack).any (·.isLE) = true ↔
    (v.toModel.unpack.compare (.zero .positive) == some .eq) = true ∨ _
  cases v.toModel.unpack with
  | notANumber => exact iff_of_false nofun (not_or_intro nofun nofun)
  | zero => exact iff_of_true rfl (.inl rfl)
  | infinity sign | finite sign =>
    cases sign
    · exact iff_of_false nofun (not_or_intro nofun nofun)
    · exact iff_of_true rfl (.inr rfl)

theorem not_zero_le (h : Scalar.isNaN v = true) : ¬0 ≤ v := by
  have hnan : v.toModel.unpack.isNaN = true := h
  have hu : v.toModel.unpack = .notANumber := by
    cases hu : v.toModel.unpack with
    | notANumber => rfl
    | _ =>
      rw [hu] at hnan
      cases hnan
  rw [float_le_iff, unpack_zero, hu]
  nofun

theorem zero_le_of_pos (h : 0 < v) : 0 ≤ v := by
  rw [float_le_iff, float_lt_iff.mp h]
  rfl

theorem eq_of_unpack (h : v.toModel.unpack = w.toModel.unpack) : v = w := by
  have hmodel : v.toModel = w.toModel := by
    rw [← pack_unpack v.toModel, h, pack_unpack]
  exact congrArg Float.ofModel hmodel

def infinity : Float := Float.ofBits 0x7ff0000000000000

theorem unpack_infinity : infinity.toModel.unpack = .infinity .positive := rfl

theorem isFinite_iff_ne (h : 0 ≤ v) : Scalar.isFinite v = true ↔ v ≠ infinity := by
  have hle := float_le_iff.mp h
  rw [unpack_zero] at hle
  have hne (hu : v.toModel.unpack ≠ .infinity .positive) : v ≠ infinity := by
    rintro rfl
    exact hu unpack_infinity
  change v.toModel.unpack.isFinite = true ↔ _
  cases hu : v.toModel.unpack with
  | notANumber =>
    rw [hu] at hle
    cases hle
  | zero | finite => exact iff_of_true rfl (hne (by rw [hu]; nofun))
  | infinity sign =>
    cases sign with
    | positive => exact iff_of_false nofun fun hv => hv (eq_of_unpack hu)
    | negative =>
      rw [hu] at hle
      cases hle

end Signs

namespace Signed

/-- The sign bit goes with a value that is not a number, and not with a zero. -/
structure Plain (t : Signed Float) : Prop where
  of_isNaN : Scalar.isNaN t.value = true → t.negative = true
  of_zero : (t.value == 0) = true → t.negative = false

variable {t : Signed Float}

theorem plain_of_nonneg (hvalue : Config.isNonnegative t.value = true)
    (hzero : ¬((t.value == 0) = true ∧ t.negative = true)) : t.Plain where
  of_isNaN hnan := by
    rw [Config.isNonnegative, Bool.and_eq_true, decide_eq_true_iff] at hvalue
    exact absurd hvalue.1 (not_zero_le hnan)
  of_zero h := by
    rw [← Bool.not_eq_true]
    exact fun hneg => hzero ⟨h, hneg⟩

theorem Plain.zero_le_iff (ht : t.Plain) : 0 ≤ t.value ↔ t.negative = false := by
  by_cases hnan : Scalar.isNaN t.value = true
  · rw [ht.of_isNaN hnan]
    exact iff_of_false (not_zero_le hnan) nofun
  rw [Bool.not_eq_true] at hnan
  rw [LeastSquares.zero_le_iff, sign?_eq hnan, ← t.negative_eq hnan]
  constructor
  · rintro (hzero | hsign)
    · exact ht.of_zero hzero
    · rw [← Bool.not_eq_true]
      intro hneg
      rw [if_pos hneg] at hsign
      cases hsign
  · intro hneg
    rw [hneg]
    exact .inr rfl

theorem Plain.not_negative (ht : t.Plain) (hvalue : t.value ≠ infinity) :
    (!t.negative) = Config.isNonnegative t.value := by
  rw [Bool.eq_iff_iff, Bool.not_eq_true', ← ht.zero_le_iff, Config.isNonnegative, Bool.and_eq_true,
    decide_eq_true_iff]
  exact (and_iff_left_of_imp fun h => (isFinite_iff_ne h).mpr hvalue).symm

theorem not_negative_of_infinite (hvalue : t.value = infinity) : t.negative = false := by
  rw [t.negative_eq (by rw [hvalue]; rfl), hvalue]
  decide +kernel

theorem not_plain_cases (ht : ¬t.Plain) :
    (t.value == 0) = true ∧ t.negative = true ∨
      Scalar.isNaN t.value = true ∧ t.negative = false := by
  by_contra! hcases
  refine ht ⟨fun hnan => ?_, fun hzero => ?_⟩
  · exact (Bool.not_eq_false _).mp (hcases.2 hnan)
  · exact (Bool.not_eq_true _).mp (hcases.1 hzero)

theorem isNonnegative_of_zero (hzero : (t.value == 0) = true) :
    Config.isNonnegative t.value = true := by
  have hnonneg : 0 ≤ t.value := LeastSquares.zero_le_iff.mpr (.inl hzero)
  have hne : t.value ≠ infinity := by
    intro h
    rw [h] at hzero
    exact absurd hzero (by decide +kernel)
  rw [Config.isNonnegative, Bool.and_eq_true, decide_eq_true_iff]
  exact ⟨hnonneg, (isFinite_iff_ne hnonneg).mpr hne⟩

end Signed

namespace Config

variable {α : Type} [Scalar α] {c c' : Config α} {p : Nat}

namespace Setting

variable {s : Setting α} {f : Field} {v : α}

def value? (f : Field) : Setting α → Option α
  | absFuncTol t => if f = .absFuncTol then some t.value else none
  | relFuncTol t => if f = .relFuncTol ∨ f = .singularTol then some t.value else none
  | xConvergeTol t => if f = .xConvergeTol then some t.value else none
  | falseConvergeTol t => if f = .falseConvergeTol then some t.value else none
  | singularTol t => if f = .singularTol then some t.value else none
  | initialTrustRadius r => if f = .initialTrustRadius then some r else none
  | maxFunctionEvals _ | maxIterations _ | phiBand _ _ => none

theorem value_write (c : Config α) (s : Setting α) (f : Field) :
    (s.write c).value f = (s.value? f).getD (c.value f) := by
  cases s <;> cases f <;> rfl

def admissible : Setting α → Bool
  | absFuncTol t | relFuncTol t | xConvergeTol t | falseConvergeTol t | singularTol t =>
    isNonnegative t.value
  | maxFunctionEvals k | maxIterations k => 0 < k
  | initialTrustRadius r => isPositive r
  | phiBand lo hi => decide (-1 < lo ∧ lo ≤ 0 ∧ 0 ≤ hi)

theorem isNonnegative_of_value? (hs : s.admissible = true) (hv : s.value? f = some v)
    (hf : f ∈ nonnegativeFields) : isNonnegative v = true := by
  cases s with
  | absFuncTol | relFuncTol | xConvergeTol | falseConvergeTol | singularTol =>
    obtain ⟨-, hv⟩ := Option.ite_none_right_eq_some.mp hv
    cases hv
    exact hs
  | initialTrustRadius =>
    obtain ⟨rfl, -⟩ := Option.ite_none_right_eq_some.mp hv
    exact absurd hf (by decide)
  | maxFunctionEvals | maxIterations | phiBand => cases hv

theorem isPositive_of_value? (hs : s.admissible = true) (hv : s.value? f = some v)
    (hf : f ∈ positiveFields) : isPositive v = true := by
  cases s with
  | initialTrustRadius =>
    obtain ⟨-, hv⟩ := Option.ite_none_right_eq_some.mp hv
    cases hv
    exact hs
  | relFuncTol =>
    obtain ⟨rfl | rfl, -⟩ := Option.ite_none_right_eq_some.mp hv <;> exact absurd hf (by decide)
  | absFuncTol | xConvergeTol | falseConvergeTol | singularTol =>
    obtain ⟨rfl, -⟩ := Option.ite_none_right_eq_some.mp hv
    exact absurd hf (by decide)
  | maxFunctionEvals | maxIterations | phiBand => cases hv

end Setting

variable {s : Setting α}

theorem fields_write (hc : c.validate p = .ok ()) (hs : s.admissible = true) :
    (∀ f ∈ nonnegativeFields, isNonnegative ((s.write c).value f) = true) ∧
      ∀ f ∈ positiveFields, isPositive ((s.write c).value f) = true := by
  obtain ⟨hnonneg, hpos⟩ := fields_of_validate hc
  simp only [Setting.value_write]
  constructor
  · intro f hf
    cases hv : s.value? f with
    | none => exact hnonneg f hf
    | some v => exact Setting.isNonnegative_of_value? hs hv hf
  · intro f hf
    cases hv : s.value? f with
    | none => exact hpos f hf
    | some v => exact Setting.isPositive_of_value? hs hv hf

theorem validate_of_admissible (hc : c.validate p = .ok ()) (hs : s.admissible = true) :
    (s.write c).validate p = .ok () := by
  obtain ⟨hdecrease, hphi, hlimits, hhebden⟩ := ranges_of_validate hc
  obtain ⟨-, -, hscale, hlog⟩ := faults_of_validate hc
  apply validate_of_fields (fields_write hc hs)
  case hranges =>
    cases s with
    | maxFunctionEvals k =>
      have hk : 0 < k := of_decide_eq_true hs
      exact ⟨hdecrease, hphi, not_or_intro hk.ne' (not_or.mp hlimits).2, hhebden⟩
    | maxIterations k =>
      have hk : 0 < k := of_decide_eq_true hs
      exact ⟨hdecrease, hphi, not_or_intro (not_or.mp hlimits).1 hk.ne', hhebden⟩
    | phiBand => exact ⟨hdecrease, of_decide_eq_true hs, hlimits, hhebden⟩
    | _ => exact ⟨hdecrease, hphi, hlimits, hhebden⟩
  case hscale => cases s <;> exact hscale
  case hlog => cases s <;> exact hlog

theorem admissible_of_validate (h : (s.write c).validate p = .ok ()) : s.admissible = true := by
  obtain ⟨hnonneg, hpos⟩ := fields_of_validate h
  obtain ⟨-, hphi, hlimits, -⟩ := ranges_of_validate h
  cases s with
  | absFuncTol => exact hnonneg .absFuncTol (by decide)
  | relFuncTol => exact hnonneg .relFuncTol (by decide)
  | xConvergeTol => exact hnonneg .xConvergeTol (by decide)
  | falseConvergeTol => exact hnonneg .falseConvergeTol (by decide)
  | singularTol => exact hnonneg .singularTol (by decide)
  | maxFunctionEvals => exact decide_eq_true (Nat.pos_of_ne_zero (not_or.mp hlimits).1)
  | maxIterations => exact decide_eq_true (Nat.pos_of_ne_zero (not_or.mp hlimits).2)
  | initialTrustRadius => exact hpos .initialTrustRadius (by decide)
  | phiBand => exact decide_eq_true hphi

theorem validate_write_iff (hc : c.validate p = .ok ()) :
    (s.write c).validate p = .ok () ↔ s.admissible = true :=
  ⟨admissible_of_validate, validate_of_admissible hc⟩

theorem validate_write_error_iff (hc : c.validate p = .ok ()) :
    (∃ e, (s.write c).validate p = .error e) ↔ s.admissible = false := by
  rw [← Bool.not_eq_true, ← validate_write_iff hc]
  cases (s.write c).validate p with
  | error e => exact iff_of_true ⟨e, rfl⟩ nofun
  | ok => exact iff_of_false nofun (not_not_intro rfl)

theorem set_ok_iff : c.set s = .ok c' ↔ s.allowed = true ∧ c' = s.write c := by
  unfold set
  split
  · next h => simp [h, eq_comm]
  · next h => simp [h]

theorem set_error_iff : c.set s = .error s ↔ s.allowed = false := by
  unfold set
  split
  · next h => simp [h]
  · next h => simp [h]

namespace Setting

def Plain : Setting Float → Prop
  | absFuncTol t | relFuncTol t | xConvergeTol t | falseConvergeTol t | singularTol t => t.Plain
  | _ => True

def NegativeZero : Setting Float → Prop
  | absFuncTol t | relFuncTol t | xConvergeTol t | falseConvergeTol t | singularTol t =>
    (t.value == 0) = true ∧ t.negative = true
  | _ => False

def UnsignedNaN : Setting Float → Prop
  | absFuncTol t | relFuncTol t | xConvergeTol t | falseConvergeTol t | singularTol t =>
    Scalar.isNaN t.value = true ∧ t.negative = false
  | _ => False

/-- A tolerance or the radius is infinite, though a side of the band may be. -/
def Infinite : Setting Float → Prop
  | absFuncTol t | relFuncTol t | xConvergeTol t | falseConvergeTol t | singularTol t =>
    t.value = infinity
  | initialTrustRadius r => r = infinity
  | _ => False

theorem plain_of_admissible {s : Setting Float} (hs : s.admissible = true)
    (hzero : ¬s.NegativeZero) : s.Plain := by
  cases s with
  | absFuncTol | relFuncTol | xConvergeTol | falseConvergeTol | singularTol =>
    exact Signed.plain_of_nonneg hs hzero
  | maxFunctionEvals | maxIterations | initialTrustRadius | phiBand => trivial

theorem allowed_eq_admissible {s : Setting Float} (hplain : s.Plain) (hfinite : ¬s.Infinite) :
    s.allowed = s.admissible := by
  cases s with
  | absFuncTol | relFuncTol | xConvergeTol | falseConvergeTol | singularTol =>
    exact Signed.Plain.not_negative hplain hfinite
  | initialTrustRadius r =>
    change decide (0 < r) = (decide (0 < r) && Scalar.isFinite r)
    by_cases hr : 0 < r
    · rw [(isFinite_iff_ne (zero_le_of_pos hr)).mpr hfinite, Bool.and_true]
    · rw [decide_eq_false hr, Bool.false_and]
  | maxFunctionEvals | maxIterations | phiBand => rfl

theorem allowed_of_infinite {s : Setting Float} (hs : s.Infinite) :
    s.allowed = true ∧ s.admissible = false := by
  cases s with
  | absFuncTol t | relFuncTol t | xConvergeTol t | falseConvergeTol t | singularTol t =>
    have hvalue : t.value = infinity := hs
    constructor
    · exact congrArg Bool.not (Signed.not_negative_of_infinite hvalue)
    · change isNonnegative t.value = false
      rw [hvalue]
      decide +kernel
  | initialTrustRadius r =>
    obtain rfl : r = infinity := hs
    decide +kernel
  | maxFunctionEvals | maxIterations | phiBand => exact hs.elim

theorem not_plain_cases {s : Setting Float} (hs : ¬s.Plain) : s.NegativeZero ∨ s.UnsignedNaN := by
  cases s with
  | absFuncTol | relFuncTol | xConvergeTol | falseConvergeTol | singularTol =>
    exact Signed.not_plain_cases hs
  | maxFunctionEvals | maxIterations | initialTrustRadius | phiBand => exact absurd trivial hs

theorem not_allowed_of_negativeZero {s : Setting Float} (hs : s.NegativeZero) :
    s.allowed = false ∧ s.admissible = true := by
  cases s with
  | absFuncTol t | relFuncTol t | xConvergeTol t | falseConvergeTol t | singularTol t =>
    exact ⟨congrArg Bool.not hs.2, Signed.isNonnegative_of_zero hs.1⟩
  | maxFunctionEvals | maxIterations | initialTrustRadius | phiBand => exact hs.elim

theorem allowed_of_unsignedNaN {s : Setting Float} (hs : s.UnsignedNaN) :
    s.allowed = true ∧ s.admissible = false := by
  cases s with
  | absFuncTol t | relFuncTol t | xConvergeTol t | falseConvergeTol t | singularTol t =>
    exact ⟨congrArg Bool.not hs.2,
      Bool.and_eq_false_iff.mpr (.inl (decide_eq_false (not_zero_le hs.1)))⟩
  | maxFunctionEvals | maxIterations | initialTrustRadius | phiBand => exact hs.elim

end Setting

theorem validate_default_float (p : Nat) : (default : Config Float).validate p = .ok () := by
  apply validate_of_fields
  · constructor
    · decide +kernel
    · decide +kernel
  · decide +kernel
  · rfl
  · rfl

theorem validate_of_foldlM {c c' : Config Float} {l : List (Setting Float)}
    (hc : c.validate p = .ok ()) (hl : ∀ s ∈ l, s.Plain ∧ ¬s.Infinite)
    (h : l.foldlM set c = .ok c') : c'.validate p = .ok () := by
  induction l generalizing c with
  | nil =>
    cases h
    exact hc
  | cons s l ih =>
    obtain ⟨⟨hplain, hfinite⟩, hl⟩ := List.forall_mem_cons.mp hl
    rw [List.foldlM_cons] at h
    cases hs : c.set s with
    | error =>
      rw [hs] at h
      cases h
    | ok d =>
      rw [hs] at h
      obtain ⟨hallowed, rfl⟩ := set_ok_iff.mp hs
      rw [Setting.allowed_eq_admissible hplain hfinite] at hallowed
      exact ih (validate_of_admissible hc hallowed) hl h

/-- The setters look at the sign bit alone. So a zero with one is refused, which is valid, and what
is not a number is taken without one, which is not. -/
theorem set_of_not_plain {c : Config Float} (hc : c.validate p = .ok ()) {s : Setting Float}
    (hs : ¬s.Plain) :
    s.NegativeZero ∧ c.set s = .error s ∧ (s.write c).validate p = .ok () ∨
      s.UnsignedNaN ∧ c.set s = .ok (s.write c) ∧
        ∃ e, (s.write c).validate p = .error e := by
  refine (Setting.not_plain_cases hs).imp (fun hzero => ?_) fun hnan => ?_
  · obtain ⟨hallowed, hadmissible⟩ := Setting.not_allowed_of_negativeZero hzero
    exact ⟨hzero, set_error_iff.mpr hallowed, validate_of_admissible hc hadmissible⟩
  · obtain ⟨hallowed, hadmissible⟩ := Setting.allowed_of_unsignedNaN hnan
    exact ⟨hnan, set_ok_iff.mpr ⟨hallowed, rfl⟩, (validate_write_error_iff hc).mpr hadmissible⟩

/-- The setters and the validation of a configuration admit the same values, but for infinities. -/
structure Guarded (c : Config Float) (p : Nat) : Prop where
  refused : ∀ s : Setting Float, s.Plain → ¬s.Infinite →
    (c.set s = .error s ↔ ∃ e, (s.write c).validate p = .error e)
  taken : ∀ s : Setting Float, s.Plain → ¬s.Infinite →
    (c.set s = .ok (s.write c) ↔ (s.write c).validate p = .ok ())
  infinite : ∀ s : Setting Float, s.Infinite →
    c.set s = .ok (s.write c) ∧ ∃ e, (s.write c).validate p = .error e
  admitted : ∀ s : Setting Float, ¬s.NegativeZero → (s.write c).validate p = .ok () →
    c.set s = .ok (s.write c)
  chain : ∀ (l : List (Setting Float)) (c' : Config Float), (∀ s ∈ l, s.Plain ∧ ¬s.Infinite) →
    l.foldlM set default = .ok c' → c'.validate p = .ok ()

theorem set_guarded {c : Config Float} (hc : c.validate p = .ok ()) : c.Guarded p := by
  constructor
  case refused =>
    intro s hplain hfinite
    rw [set_error_iff, validate_write_error_iff hc, Setting.allowed_eq_admissible hplain hfinite]
  case taken =>
    intro s hplain hfinite
    rw [set_ok_iff, validate_write_iff hc, Setting.allowed_eq_admissible hplain hfinite]
    exact and_iff_left rfl
  case infinite =>
    intro s hs
    obtain ⟨hallowed, hadmissible⟩ := Setting.allowed_of_infinite hs
    exact ⟨set_ok_iff.mpr ⟨hallowed, rfl⟩, (validate_write_error_iff hc).mpr hadmissible⟩
  case admitted =>
    intro s hzero hvalid
    have hadmissible := admissible_of_validate hvalid
    -- What is infinite is let through when it is set, and never by the validation.
    have hfinite : ¬s.Infinite := by
      intro hs
      rw [(Setting.allowed_of_infinite hs).2] at hadmissible
      cases hadmissible
    have hallowed := Setting.allowed_eq_admissible
      (Setting.plain_of_admissible hadmissible hzero) hfinite
    exact set_ok_iff.mpr ⟨hallowed.trans hadmissible, rfl⟩
  case chain =>
    intro l c' hl h
    exact validate_of_foldlM (validate_default_float p) hl h

theorem set_guarded_default : (default : Config Float).validate 2 = .ok () ∧ default.Guarded 2 :=
  ⟨validate_default_float 2, set_guarded (validate_default_float 2)⟩

/-- An infinite radius may be set, and is not valid. -/
theorem set_infinite_radius :
    let c : Config Float := default
    let s : Setting Float := .initialTrustRadius infinity
    c.validate 2 = .ok () ∧ ¬(c.set s = .error s ↔ ∃ e, (s.write c).validate 2 = .error e) := by
  intro c s
  have hc : c.validate 2 = .ok () := validate_default_float 2
  obtain ⟨hallowed, hadmissible⟩ := Setting.allowed_of_infinite (s := s) rfl
  refine ⟨hc, fun h => ?_⟩
  rw [set_error_iff, validate_write_error_iff hc, hallowed, hadmissible] at h
  exact absurd (h.mpr rfl) nofun

end Config

end LeastSquares
