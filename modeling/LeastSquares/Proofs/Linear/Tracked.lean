import LeastSquares.Proofs.Linear.Definite

namespace LeastSquares

variable {n : Nat}

/-- An exact number together with whether it is a result at all: that no division on the way to it
was by zero, and no root was that of a negative number. -/
@[ext]
structure Tracked where
  value : ℝ
  defined : Prop

namespace Tracked

def of (x : ℝ) : Tracked := ⟨x, True⟩

def map (f : ℝ → ℝ) (x : Tracked) : Tracked := ⟨f x.value, x.defined⟩

def map₂ (f : ℝ → ℝ → ℝ) (x y : Tracked) : Tracked := ⟨f x.value y.value, x.defined ∧ y.defined⟩

/-- The numbers are computed as without the mark, also where they are not results. -/
noncomputable instance : Scalar Tracked where
  natCast k := of k
  toZero := ⟨of 0⟩
  toOne := ⟨of 1⟩
  add := map₂ (· + ·)
  sub := map₂ (· - ·)
  mul := map₂ (· * ·)
  div x y := ⟨x.value / y.value, x.defined ∧ y.defined ∧ y.value ≠ 0⟩
  neg := map (-·)
  lt x y := x.value < y.value
  le x y := x.value ≤ y.value
  beq x y := x.value == y.value
  max := map₂ max
  min := map₂ min
  ltDecidable x y := inferInstanceAs (Decidable (x.value < y.value))
  leDecidable x y := inferInstanceAs (Decidable (x.value ≤ y.value))
  abs := map Scalar.abs
  sqrt x := ⟨Scalar.sqrt x.value, x.defined ∧ 0 ≤ x.value⟩
  isNaN x := Scalar.isNaN x.value
  isFinite x := Scalar.isFinite x.value
  isNegative x := Scalar.isNegative x.value
  epsilon := of Scalar.epsilon
  tiny := of Scalar.tiny
  huge := of Scalar.huge
  Side := Option Tracked
  side? := id

theorem sub_of (x y : ℝ) : of x - of y = of (x - y) :=
  Tracked.ext rfl (propext (and_iff_left trivial))

theorem mul_of (x y : ℝ) : of x * of y = of (x * y) :=
  Tracked.ext rfl (propext (and_iff_left trivial))

theorem div_of (x : ℝ) {y : ℝ} (hy : y ≠ 0) : of x / of y = of (x / y) :=
  Tracked.ext rfl (eq_true ⟨trivial, trivial, hy⟩)

theorem sqrt_of {x : ℝ} (hx : 0 ≤ x) : Scalar.sqrt (of x) = of (Scalar.sqrt x) :=
  Tracked.ext rfl (eq_true ⟨trivial, hx⟩)

theorem of_le_zero {x : ℝ} : of x ≤ 0 ↔ x ≤ 0 := Iff.rfl

theorem lessOver_of (l : List (Fin n)) (a : ℝ) (f : Fin n → ℝ) :
    lessOver l (of a) (fun i => of (f i)) = of (lessOver l a f) := by
  unfold lessOver
  induction l generalizing a with
  | nil => rfl
  | cons i l ih => rw [List.foldl_cons, List.foldl_cons, sub_of, ih]

end Tracked

section Carried

def Triangle.tracked (t : Triangle ℝ n) : Triangle Tracked n := ⟨t.entries.map .of⟩

def Symmetric.tracked (a : Symmetric ℝ n) : Symmetric Tracked n := ⟨a.lower.tracked⟩

def Lower.tracked (l : Lower ℝ n) : Lower Tracked n := ⟨l.triangle.tracked⟩

def NotPositiveDefinite.tracked (e : NotPositiveDefinite ℝ n) : NotPositiveDefinite Tracked n :=
  ⟨e.index, e.factor.tracked⟩

theorem Triangle.get_tracked (t : Triangle ℝ n) {i j : Fin n} (h : j ≤ i) :
    t.tracked.get i j h = .of (t.get i j h) :=
  Vector.getElem_map _ _

theorem Symmetric.get_tracked (a : Symmetric ℝ n) (i j : Fin n) :
    a.tracked.get i j = .of (a.get i j) := by
  unfold get
  split
  · exact a.lower.get_tracked _
  · exact a.lower.get_tracked _

theorem Lower.get_tracked (l : Lower ℝ n) (i j : Fin n) : l.tracked.get i j = .of (l.get i j) := by
  unfold get
  split
  · exact l.triangle.get_tracked _
  · rfl

theorem Lower.set_tracked (l : Lower ℝ n) (i j : Fin n) (v : ℝ) :
    l.tracked.set i j (.of v) = (l.set i j v).tracked := by
  unfold set
  split
  · simp [tracked, Triangle.tracked, Triangle.set, Vector.map_set]
  · rfl

theorem Lower.tracked_zeros : (zeros n : Lower ℝ n).tracked = zeros n := by
  rw [tracked, zeros, Triangle.tracked, Triangle.replicate, Vector.map_replicate]
  rfl

end Carried

section Loops

theorem foldl_take_relation {β γ : Type} {f : β → Fin n → β} {g : γ → Fin n → γ} {b : β} {c : γ}
    (motive : Nat → β → γ → Prop) {k : Nat} (hk : k ≤ n) (start : motive 0 b c)
    (turn : ∀ (i : Fin n) b c, i < k → motive i b c → motive (i + 1) (f b i) (g c i)) :
    motive k (((List.finRange n).take k).foldl f b) (((List.finRange n).take k).foldl g c) := by
  induction k with
  | zero => simpa using start
  | succ k ih =>
    have hl : k < (List.finRange n).length := by simpa using hk
    have h := ih (Nat.le_of_succ_le hk) fun i b c hi => turn i b c (Nat.lt_succ_of_lt hi)
    rw [List.take_succ_eq_append_getElem hl, List.foldl_append, List.foldl_append]
    simpa using turn ⟨k, hk⟩ _ _ (Nat.lt_succ_self k) h

/-- A loop that may fail goes the same way on what is carried along as long as its turns do. -/
theorem foldlM_take_carry {β γ ε δ : Type} {f : β → Fin n → Except ε β}
    {g : γ → Fin n → Except δ γ} {b : β} (carry : β → γ) (refuse : ε → δ)
    (motive : Nat → β → Prop) (start : motive 0 b)
    (turn : ∀ (i : Fin n) b, motive i b →
      (∀ b', f b i = .ok b' → motive (i + 1) b') ∧
        g (carry b) i = ((f b i).map carry).mapError refuse)
    {k : Nat} (hk : k ≤ n) :
    ((List.finRange n).take k).foldlM g (carry b) =
      ((((List.finRange n).take k).foldlM f b).map carry).mapError refuse := by
  induction k with
  | zero => rfl
  | succ k ih =>
    have hl : k < (List.finRange n).length := by simpa using hk
    have hkn := Nat.le_of_succ_le hk
    have hinvariant := (foldlM_take_induction motive (fun _ => True) start
      (fun i b hb => ⟨(turn i b hb).1, fun _ _ => trivial⟩) hkn).1
    rw [List.take_succ_eq_append_getElem hl, List.foldlM_append, List.foldlM_append, ih hkn]
    cases hrun : ((List.finRange n).take k).foldlM f b with
    | error e => rfl
    | ok b' =>
      have hturn := (turn ⟨k, hk⟩ b' (hinvariant b' hrun)).2
      simp only [List.foldlM_cons, List.foldlM_nil, List.getElem_finRange, bind_pure]
      exact hturn

end Loops

namespace Cholesky

variable {a : Symmetric ℝ n} {l : Lower ℝ n} {i : Fin n}

theorem reduced_tracked (a : Symmetric ℝ n) (l : Lower ℝ n) (i j : Fin n) :
    reduced a.tracked l.tracked i j = .of (reduced a l i j) := by
  simp only [reduced, Symmetric.get_tracked, Lower.get_tracked, Tracked.mul_of,
    Tracked.lessOver_of]

theorem offDiagonal_tracked (hl : ∀ j, j < i → l.get j j ≠ 0) :
    offDiagonal a.tracked l.tracked i = (offDiagonal a l i).tracked := by
  suffices h : offDiagonal a.tracked l.tracked i = (offDiagonal a l i).tracked ∧
      ∀ j, j < i → (offDiagonal a l i).get j j = l.get j j from h.1
  apply foldl_take_relation (fun _ (m : Lower ℝ n) (t : Lower Tracked n) =>
    t = m.tracked ∧ ∀ j, j < i → m.get j j = l.get j j) i.isLt.le
  · exact ⟨rfl, fun _ _ => rfl⟩
  · rintro j m _ hji ⟨rfl, hdiagonal⟩
    have hne : m.get j j ≠ 0 := by
      rw [hdiagonal j hji]
      exact hl j hji
    refine ⟨?_, fun k hk => ?_⟩
    · rw [reduced_tracked, Lower.get_tracked, Tracked.div_of _ hne, Lower.set_tracked]
    · rw [m.get_set_of_row_ne (Fin.le_of_lt hji) _ (Fin.ne_of_lt hk), hdiagonal k hk]

theorem row_tracked (hl : ∀ j, j < i → l.get j j ≠ 0) :
    row a.tracked l.tracked i =
      ((row a l i).map Lower.tracked).mapError NotPositiveDefinite.tracked := by
  unfold row
  dsimp only
  rw [offDiagonal_tracked hl, reduced_tracked]
  by_cases ht : reduced a (offDiagonal a l i) i i ≤ 0
  · rw [if_pos ht, if_pos (Tracked.of_le_zero.mpr ht), Lower.set_tracked]
    rfl
  · rw [if_neg ht, if_neg fun h => ht (Tracked.of_le_zero.mp h),
      Tracked.sqrt_of (not_le.mp ht).le, Lower.set_tracked]
    rfl

end Cholesky

theorem Symmetric.cholesky_tracked (a : Symmetric ℝ n) :
    a.tracked.cholesky = (a.cholesky.map Lower.tracked).mapError NotPositiveDefinite.tracked := by
  have h := foldlM_take_carry (f := Cholesky.row a) Lower.tracked NotPositiveDefinite.tracked
    (Cholesky.Rows a) (Cholesky.rows_zeros a)
    (fun i l hl => ⟨(Cholesky.row_spec hl).1,
      Cholesky.row_tracked fun j hj => (hl.diagonal_pos j hj).ne'⟩) (le_refl n)
  rwa [List.take_of_length_le (by simp), Lower.tracked_zeros] at h

end LeastSquares
