import LeastSquares.Proofs.Ordered
import Mathlib

namespace LeastSquares

open Float.Model (UnpackedFloat Format)
open Float.Model.UnpackedFloat (packComponents unpackSign unpackExponent unpackMantissa Sign)

theorem neg_unpack_packComponents (spec : Format) (sign : Sign) (x : BitVec spec.exponentBits)
    (m : BitVec spec.mantissaBitsWithoutImplicit) :
    (UnpackedFloat.unpack spec (packComponents spec sign x m)).neg =
      UnpackedFloat.unpack spec (packComponents spec (-sign) x m) := by
  unfold UnpackedFloat.unpack
  simp only [UnpackedFloat.unpackSign_packComponents, UnpackedFloat.unpackExponent_packComponents,
    UnpackedFloat.unpackMantissa_packComponents, Sign.ofBitVec_toBitVec]
  split
  · split <;> rfl
  · split
    · split <;> rfl
    · rfl

theorem pack_unpack (a : Float.Model) : Float.Model.pack a.unpack = a := by
  obtain ⟨⟨b⟩, hvalid⟩ := a
  have h : UnpackedFloat.pack Format.binary64 (.unpack Format.binary64 b) = b :=
    UnpackedFloat.pack_unpack_of_valid hvalid
  simp only [Float.Model.pack, Float.Model.unpack, h]

theorem unpack_neg (a : Float.Model) : (-a).unpack = a.unpack.neg := by
  let b : BitVec Format.binary64.numBits := a.toBits.toBitVec
  change UnpackedFloat.unpack _ (UnpackedFloat.pack _ (UnpackedFloat.unpack _ b).neg) =
    (UnpackedFloat.unpack _ b).neg
  by_cases hnan : unpackExponent b = -1#11 ∧ unpackMantissa b ≠ 0#52
  · have hb : b = UnpackedFloat.packedNaN _ := a.valid.eq_packedNaN hnan.1 hnan.2
    rw [hb]
    rfl
  · have hvalid : Format.binary64.Valid (packComponents Format.binary64
        (-.ofBitVec (unpackSign b)) (unpackExponent b) (unpackMantissa b)) := by
      refine ⟨fun hx hm => absurd ⟨?_, ?_⟩ hnan⟩
      · simpa using hx
      · simpa using hm
    have hneg := neg_unpack_packComponents _ (.ofBitVec (unpackSign b)) (unpackExponent b)
      (unpackMantissa b)
    rw [UnpackedFloat.packComponents_unpackSign_unpackExponent_unpackMantissa] at hneg
    rw [hneg, UnpackedFloat.pack_unpack_of_valid hvalid]

theorem unpack_zero : (0 : Float).toModel.unpack = .zero .positive := rfl

theorem unpack_of_pos {a : Float} (ha : 0 < a) :
    a.toModel.unpack.abs = a.toModel.unpack ∧
      a.toModel.unpack.neg.compare (.zero .positive) = some .lt ∧
      a.toModel.unpack.compare (.zero .positive) = some .gt := by
  have hlt := float_lt_iff.mp ha
  rw [unpack_zero] at hlt
  cases hu : a.toModel.unpack with
  | notANumber | zero => simp [hu, UnpackedFloat.compare] at hlt
  | infinity sign | finite sign m e =>
    cases sign
    · simp [hu, UnpackedFloat.compare] at hlt
    · exact ⟨rfl, rfl, rfl⟩

/-- What is known of a number and of its negation whatever the arithmetic is like. -/
class Scalar.Mirrored (α : Type) [Scalar α] : Prop where
  neg_neg (a : α) : - -a = a
  abs_neg (a : α) : Scalar.abs (-a) = Scalar.abs a
  abs_of_pos {a : α} : 0 < a → Scalar.abs a = a
  neg_le_zero {a : α} : 0 < a → -a ≤ 0
  not_le_zero {a : α} : 0 < a → ¬a ≤ 0

instance : Scalar.Mirrored ℝ where
  neg_neg := neg_neg
  abs_neg a := abs_neg a
  abs_of_pos ha := abs_of_pos ha
  neg_le_zero ha := neg_nonpos.mpr (le_of_lt ha)
  not_le_zero ha := not_le.mpr ha

instance : Scalar.Mirrored Float where
  neg_neg a := by
    have hu : a.toModel.unpack.neg.neg = a.toModel.unpack := by
      cases a.toModel.unpack with
      | notANumber => rfl
      | infinity sign | zero sign | finite sign => cases sign <;> rfl
    have h : - -a.toModel = a.toModel := by
      change Float.Model.pack (-a.toModel).unpack.neg = a.toModel
      rw [unpack_neg, hu, pack_unpack]
    exact congrArg Float.ofModel h
  abs_neg a := by
    have hu : a.toModel.unpack.neg.abs = a.toModel.unpack.abs := by
      cases a.toModel.unpack <;> rfl
    have h : (-a.toModel).abs = a.toModel.abs := by
      rw [Float.Model.abs, unpack_neg, hu, Float.Model.abs]
    exact congrArg Float.ofModel h
  abs_of_pos {a} ha := by
    have h : a.toModel.abs = a.toModel := by
      rw [Float.Model.abs, (unpack_of_pos ha).1, pack_unpack]
    exact congrArg Float.ofModel h
  neg_le_zero {a} ha := by
    apply float_le_iff.mpr
    have h : (-a).toModel.unpack = a.toModel.unpack.neg := unpack_neg a.toModel
    change ((-a).toModel.unpack.compare (.zero .positive)).any (·.isLE) = true
    rw [h, (unpack_of_pos ha).2.1]
    rfl
  not_le_zero {a} ha hle := by
    have h : (a.toModel.unpack.compare (.zero .positive)).any (·.isLE) = true :=
      float_le_iff.mp hle
    rw [(unpack_of_pos ha).2.2] at h
    cases h

end LeastSquares
