import LeastSquares.Bounds
import LeastSquares.Proofs.Linear.Coordinates

namespace LeastSquares

variable {p : Nat}

open Scalar (Side side?)

namespace Bounds

section

variable {α : Type} [Scalar α]

theorem side_spec {what : Quantity} {v : Option (Array (Side α))} {w : Option (Vector (Side α) p)}
    (h : side p what v = .ok w) {a : Array (Side α)} (ha : v = some a) :
    ∃ hsize : a.size = p, w = some ⟨a, hsize⟩ := by
  subst ha
  rw [side] at h
  split at h
  · next hsize =>
    cases h
    exact ⟨hsize, rfl⟩
  · cases h

/-- A component can be clamped between these bounds. -/
structure Clamps (b : Bounds α p) (i : Fin p) : Prop where
  lower : ∀ l, b.floor? i = some l → Scalar.isNaN l = false
  upper : ∀ u, b.ceiling? i = some u → Scalar.isNaN u = false
  order : ∀ l u, b.floor? i = some l → b.ceiling? i = some u → ¬u < l

theorem clamps_of_not_empty {b : Bounds α p} {i : Fin p} (h : b.emptyAt i = false) :
    b.Clamps i := by
  unfold emptyAt at h
  constructor
  case lower =>
    intro l hl
    rw [hl] at h
    cases hu : b.ceiling? i with
    | none =>
      rw [hu] at h
      exact h
    | some u =>
      rw [hu] at h
      dsimp only at h
      rw [Bool.or_eq_false_iff, Bool.or_eq_false_iff] at h
      exact h.1.1
  case upper =>
    intro u hu
    rw [hu] at h
    cases hl : b.floor? i with
    | none =>
      rw [hl] at h
      exact h
    | some l =>
      rw [hl] at h
      dsimp only at h
      rw [Bool.or_eq_false_iff, Bool.or_eq_false_iff] at h
      exact h.1.2
  case order =>
    intro l u hl hu
    rw [hl, hu] at h
    dsimp only at h
    rw [Bool.or_eq_false_iff] at h
    exact of_decide_eq_false h.2

theorem make_cases {lower upper : Option (Array (Side α))} {b : Option (Bounds α p)}
    (h : make p lower upper = .ok b) : lower = none ∧ upper = none ∧ b = none ∨
      ∃ l u, side p .lowerBounds lower = .ok l ∧ side p .upperBounds upper = .ok u ∧
        b = some ⟨l, u⟩ ∧ ∀ i, (⟨l, u⟩ : Bounds α p).emptyAt i = false := by
  unfold make at h
  split at h
  · next hnone =>
    rw [Bool.and_eq_true, Option.isNone_iff_eq_none, Option.isNone_iff_eq_none] at hnone
    cases h
    exact .inl ⟨hnone.1, hnone.2, rfl⟩
  cases hl : side p .lowerBounds lower with
  | error e =>
    rw [hl] at h
    cases h
  | ok l =>
    cases hu : side p .upperBounds upper with
    | error e =>
      rw [hl, hu] at h
      cases h
    | ok u =>
      simp only [hl, hu, bind, Except.bind] at h
      split at h
      · cases h
      · next hfind =>
        cases h
        refine .inr ⟨l, u, rfl, rfl, rfl, fun i => ?_⟩
        exact Bool.eq_false_iff.mpr (List.find?_eq_none.mp hfind i (List.mem_finRange i))

theorem side_toArray (what : Quantity) (v : Option (Vector (Side α) p)) :
    side p what (v.map Vector.toArray) = .ok v := by
  cases v with
  | none => rfl
  | some v => exact dif_pos v.size_toArray

theorem make_toArray {b : Bounds α p} (hgiven : (b.lower.isNone && b.upper.isNone) = false)
    (hnonempty : ∀ i, b.emptyAt i = false) :
    make p (b.lower.map Vector.toArray) (b.upper.map Vector.toArray) = .ok (some b) := by
  have hfind : (List.finRange p).find? b.emptyAt = none := by
    rw [List.find?_eq_none]
    exact fun i _ => Bool.eq_false_iff.mp (hnonempty i)
  unfold make
  rw [Option.isNone_map, Option.isNone_map, hgiven, side_toArray, side_toArray]
  simp only [Bool.false_eq_true, if_false, bind, Except.bind, hfind]

end

def Ordered (b : Bounds ℝ p) : Prop :=
  ∀ i l u, b.floor? i = some l → b.ceiling? i = some u → l ≤ u

theorem make_ordered {lower upper : Option (Array (Side ℝ))} {b : Bounds ℝ p}
    (h : make p lower upper = .ok (some b)) : b.Ordered := by
  rcases make_cases h with ⟨-, -, hnone⟩ | ⟨l, u, -, -, hb, hnonempty⟩
  · cases hnone
  · obtain rfl := Option.some.inj hb
    intro i l u hl hu
    exact not_lt.mp ((clamps_of_not_empty (hnonempty i)).order l u hl hu)

theorem project_cases {b : Bounds ℝ p} (hb : b.Ordered) (x : Vector ℝ p) (i : Fin p) :
    (b.project x)[i] = x[i] ∨
      (x[i] < (b.project x)[i] ∧ b.floor? i = some (b.project x)[i]) ∨
      (b.project x)[i] < x[i] ∧ b.ceiling? i = some (b.project x)[i] := by
  unfold project
  simp only [getElem_place, Vector.getElem_ofFn]
  cases hl : b.floor? i with
  | none =>
    cases hu : b.ceiling? i with
    | none => exact .inl rfl
    | some u =>
      rw [Option.elim_none, Option.elim_some, clampHigh]
      split
      · next hhigh => exact .inr (.inr ⟨hhigh, rfl⟩)
      · exact .inl rfl
  | some l =>
    cases hu : b.ceiling? i with
    | none =>
      rw [Option.elim_none, Option.elim_some, clampLow]
      split
      · next hlow => exact .inr (.inl ⟨hlow, rfl⟩)
      · exact .inl rfl
    | some u =>
      have hordered : l ≤ u := hb i l u hl hu
      rw [Option.elim_some, Option.elim_some, clampLow]
      split
      · next hlow =>
        refine .inr (.inl ?_)
        rw [clampHigh, if_neg (not_lt.mpr hordered)]
        exact ⟨hlow, rfl⟩
      · rw [clampHigh]
        split
        · next hhigh => exact .inr (.inr ⟨hhigh, rfl⟩)
        · exact .inl rfl

def Contains (b : Bounds ℝ p) (x : Vector ℝ p) : Prop :=
  ∀ i : Fin p, (∀ l, b.floor? i = some l → l ≤ x[i]) ∧ ∀ u, b.ceiling? i = some u → x[i] ≤ u

theorem le_clampLow (l x : ℝ) : l ≤ clampLow l x := by
  unfold clampLow
  split
  · exact le_refl l
  · next h => exact not_lt.mp h

theorem clampHigh_le (u x : ℝ) : clampHigh u x ≤ u := by
  unfold clampHigh
  split
  · exact le_refl u
  · next h => exact not_lt.mp h

theorem le_clampHigh {l u x : ℝ} (hu : l ≤ u) (hx : l ≤ x) : l ≤ clampHigh u x := by
  unfold clampHigh
  split
  · exact hu
  · exact hx

theorem project_contains {b : Bounds ℝ p} (hb : b.Ordered) (x : Vector ℝ p) :
    b.Contains (b.project x) := by
  intro i
  unfold project
  simp only [getElem_place, Vector.getElem_ofFn]
  refine ⟨fun l hl => ?_, fun u hu => ?_⟩
  · rw [hl]
    cases hu : b.ceiling? i with
    | none => exact le_clampLow _ _
    | some u => exact le_clampHigh (hb i l u hl hu) (le_clampLow _ _)
  · rw [hu]
    exact clampHigh_le _ _

/-- The point is not beyond any of the bounds that were given. A side that was given has an entry
for each component. -/
def Respects (lower upper : Option (Array (Side ℝ))) (x : Vector ℝ p) : Prop :=
  ∀ i : Fin p,
    (∀ l, lower = some l → ∃ h : i.val < l.size, ∀ a, side? l[i.val] = some a → a ≤ x[i]) ∧
    ∀ u, upper = some u → ∃ h : i.val < u.size, ∀ a, side? u[i.val] = some a → x[i] ≤ a

theorem respects_of_make {lower upper : Option (Array (Side ℝ))} {b : Option (Bounds ℝ p)}
    (h : make p lower upper = .ok b) {x : Vector ℝ p} (hx : ∀ b', b = some b' → b'.Contains x) :
    Respects lower upper x := by
  rcases make_cases h with ⟨rfl, rfl, -⟩ | ⟨l, u, hl, hu, rfl, -⟩
  · refine fun i => ⟨fun l hl => ?_, fun u hu => ?_⟩
    · cases hl
    · cases hu
  · have hx := hx _ rfl
    refine fun i => ⟨fun a ha => ?_, fun a ha => ?_⟩
    · obtain ⟨hsize, rfl⟩ := side_spec hl ha
      exact ⟨hsize.symm ▸ i.isLt, fun _ hentry => (hx i).1 _ hentry⟩
    · obtain ⟨hsize, rfl⟩ := side_spec hu ha
      exact ⟨hsize.symm ▸ i.isLt, fun _ hentry => (hx i).2 _ hentry⟩

/-- From `x` the box allows no move along component `i` of `v`. -/
structure Blocks (b : Bounds ℝ p) (x : Vector ℝ p) (v : Fin p → ℝ) (i : Fin p) : Prop where
  down : v i < 0 → b.floor? i = some x[i]
  up : 0 < v i → b.ceiling? i = some x[i]

/-- To first order, no move along component `i` that stays in the box lowers a function which has
gradient `g` at `x`. -/
def Stationary (b : Bounds ℝ p) (x g : Vector ℝ p) (i : Fin p) : Prop :=
  b.Blocks x (-coords g) i

variable {b : Bounds ℝ p} {x : Vector ℝ p} {i : Fin p}

theorem blocks_of_zero {v : Fin p → ℝ} (hv : v i = 0) : b.Blocks x v i :=
  ⟨fun h => absurd hv h.ne, fun h => absurd hv h.ne'⟩

theorem Blocks.add {u v w : Fin p → ℝ} (hv : b.Blocks x v i) (hw : b.Blocks x w i) {a : ℝ}
    (ha : 0 ≤ a) (hu : u i = a * v i + w i) : b.Blocks x u i := by
  refine ⟨fun hneg => ?_, fun hpos => ?_⟩
  · rcases lt_or_ge (v i) 0 with h | h
    · exact hv.down h
    · have hnonneg := mul_nonneg ha h
      exact hw.down (by linarith)
  · rcases lt_or_ge 0 (v i) with h | h
    · exact hv.up h
    · have hnonpos := mul_nonpos_of_nonneg_of_nonpos ha h
      exact hw.up (by linarith)

theorem blocks_of_project_eq (hb : b.Ordered) {step : Vector ℝ p}
    (hstall : b.project (x + step) = x) (i : Fin p) : b.Blocks x (coords step) i := by
  have hsum : (x + step)[i] = x[i] + coords step i := congrFun (coords_add x step) i
  have hcases := project_cases hb (x + step) i
  rw [hstall, hsum] at hcases
  refine ⟨fun hneg => ?_, fun hpos => ?_⟩
  · rcases hcases with hsame | ⟨-, hlow⟩ | ⟨hdown, -⟩
    · linarith
    · exact hlow
    · linarith
  · rcases hcases with hsame | ⟨hup, -⟩ | ⟨-, hhigh⟩
    · linarith
    · linarith
    · exact hhigh

end Bounds

end LeastSquares
