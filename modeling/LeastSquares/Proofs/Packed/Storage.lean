import LeastSquares.Proofs.Linear.Coordinates
import Mathlib.Data.Set.Function

namespace LeastSquares

open Matrix

variable {α : Type} {m n : Nat}

theorem exists_slot {k : Nat} (hk : k < triangular n) :
    ∃ i j : Fin n, j ≤ i ∧ k = triangular i + j := by
  induction n with
  | zero => exact absurd hk (Nat.not_lt_zero k)
  | succ n ih =>
    rcases lt_or_ge k (triangular n) with h | h
    · obtain ⟨i, j, hj, heq⟩ := ih h
      exact ⟨i.castSucc, j.castSucc, hj, heq⟩
    · rw [triangular_succ] at hk
      refine ⟨Fin.last n, ⟨k - triangular n, by omega⟩, Fin.le_last _, ?_⟩
      change k = triangular n + (k - triangular n)
      omega

namespace Triangle

theorem ext_get {s t : Triangle α n}
    (h : ∀ (i j : Fin n) (hj : j ≤ i), s.get i j hj = t.get i j hj) : s = t := by
  obtain ⟨s⟩ := s
  obtain ⟨t⟩ := t
  congr 1
  apply Vector.ext
  intro k hk
  obtain ⟨i, j, hj, rfl⟩ := exists_slot hk
  exact h i j hj

theorem exists_get_of_mem {t : Triangle α n} {v : α} (hv : v ∈ t.entries) :
    ∃ (i j : Fin n) (hj : j ≤ i), t.get i j hj = v := by
  obtain ⟨k, hk, rfl⟩ := Vector.getElem_of_mem hv
  obtain ⟨i, j, hj, rfl⟩ := exists_slot hk
  exact ⟨i, j, hj, rfl⟩

theorem get_mem_entries (t : Triangle α n) {i j : Fin n} (hj : j ≤ i) : t.get i j hj ∈ t.entries :=
  Vector.getElem_mem _

theorem map_ofArray_eq_ok_iff {β : Type} {f : Triangle α n → β} (hf : Function.Injective f)
    {data : Array α} {t : Triangle α n} :
    (ofArray n data).map f = .ok (f t) ↔ t.entries.toArray = data := by
  unfold ofArray
  constructor
  · intro h
    split at h
    · obtain rfl := hf (Except.ok.inj h)
      rfl
    · cases h
  · rintro rfl
    rw [dif_pos t.entries.size_toArray]
    rfl

theorem exists_ofArray_iff {β : Type} {f : Triangle α n → β} {data : Array α} :
    (∃ b, (ofArray n data).map f = .ok b) ↔ data.size = n * (n + 1) / 2 := by
  unfold ofArray
  constructor
  · rintro ⟨b, hb⟩
    split at hb
    · next hsize => exact hsize
    · cases hb
  · intro hsize
    change data.size = triangular n at hsize
    rw [dif_pos hsize]
    exact ⟨_, rfl⟩

theorem getElem?_toArray (t : Triangle α n) {i j : Fin n} (hj : j ≤ i) :
    t.entries.toArray[triangular i + j]? = some (t.get i j hj) := by
  have hslot : triangular i + j < t.entries.toArray.size := by
    rw [t.entries.size_toArray]
    exact slot_lt hj
  rw [Array.getElem?_eq_getElem hslot]
  rfl

end Triangle

namespace Dense

theorem get_ofFn (f : Fin m → Fin n → α) (i : Fin m) (j : Fin n) : (ofFn f).get i j = f i j := by
  simp [get, ofFn]

theorem ext_get {a b : Dense α m n} (h : ∀ i j, a.get i j = b.get i j) : a = b := by
  obtain ⟨x⟩ := a
  obtain ⟨y⟩ := b
  congr 1
  apply Vector.ext
  intro j hj
  apply Vector.ext
  intro i hi
  exact h ⟨i, hi⟩ ⟨j, hj⟩

theorem get_transpose (a : Dense α m n) (i : Fin n) (j : Fin m) :
    a.transpose.get i j = a.get j i := get_ofFn _ i j

def symmetric (α : Type) (n : Nat) : Set (Dense α n n) := {d | d.transpose = d}

def lower (α : Type) [Scalar α] (n : Nat) : Set (Dense α n n) :=
  {d | ∀ i j, i < j → d.get i j = 0}

end Dense

namespace Symmetric

theorem ext_get {a b : Symmetric α n} (h : ∀ i j, j ≤ i → a.get i j = b.get i j) : a = b := by
  obtain ⟨s⟩ := a
  obtain ⟨t⟩ := b
  congr 1
  apply Triangle.ext_get
  intro i j hj
  have hget := h i j hj
  rw [get, get, dif_pos hj, dif_pos hj] at hget
  exact hget

theorem get_toDense (a : Symmetric α n) (i j : Fin n) : a.toDense.get i j = a.get i j :=
  Dense.get_ofFn a.get i j

theorem toDense_mem (a : Symmetric α n) : a.toDense ∈ Dense.symmetric α n := by
  apply Dense.ext_get
  intro i j
  rw [Dense.get_transpose, get_toDense, get_toDense, a.get_comm]

theorem ofDense_toDense (a : Symmetric α n) : ofDense a.toDense = a := by
  apply ext_get
  intro i j hj
  rw [ofDense, get_ofFn, if_pos hj, get_toDense]

theorem toDense_ofDense {d : Dense α n n} (hd : d ∈ Dense.symmetric α n) :
    (ofDense d).toDense = d := by
  apply Dense.ext_get
  intro i j
  rw [get_toDense, ofDense, get_ofFn]
  split
  · rfl
  · have htranspose := congrArg (fun d : Dense α n n => d.get i j) hd
    rw [Dense.get_transpose] at htranspose
    exact htranspose

theorem invOn_ofDense : Set.InvOn ofDense toDense (Set.univ : Set (Symmetric α n))
    (Dense.symmetric α n) :=
  ⟨fun a _ => a.ofDense_toDense, fun _ hd => toDense_ofDense hd⟩

theorem bijOn_toDense :
    Set.BijOn toDense (Set.univ : Set (Symmetric α n)) (Dense.symmetric α n) :=
  invOn_ofDense.bijOn (fun a _ => a.toDense_mem) fun _ _ => Set.mem_univ _

theorem ofArray_eq_ok_iff {data : Array α} {a : Symmetric α n} :
    ofArray n data = .ok a ↔ a.lower.entries.toArray = data :=
  Triangle.map_ofArray_eq_ok_iff (f := mk) fun _ _ => mk.inj

theorem exists_ofArray_iff {data : Array α} :
    (∃ a, ofArray n data = .ok a) ↔ data.size = n * (n + 1) / 2 :=
  Triangle.exists_ofArray_iff (f := mk)

theorem getElem?_toArray (a : Symmetric α n) {i j : Fin n} (hj : j ≤ i) :
    a.lower.entries.toArray[triangular i + j]? = some (a.get i j) := by
  rw [a.lower.getElem?_toArray hj, get, dif_pos hj]

theorem matrix_injective :
    Function.Injective (matrix : Symmetric ℝ n → Matrix (Fin n) (Fin n) ℝ) :=
  fun _ _ h => ext_get fun i j _ => congrFun (congrFun h i) j

theorem maxAbs_eq_foldl (a : Symmetric ℝ n) :
    a.maxAbs = a.lower.entries.toList.foldl (fun m v => max m (Scalar.abs v)) 0 :=
  (Vector.foldl_toList _).symm

theorem abs_get_le_maxAbs (a : Symmetric ℝ n) (i j : Fin n) : |a.get i j| ≤ a.maxAbs := by
  have hall := (foldl_max Scalar.abs a.lower.entries.toList 0).2.1
  rw [maxAbs_eq_foldl, get]
  split
  · exact hall _ (Vector.mem_toList_iff.mpr (a.lower.get_mem_entries _))
  · exact hall _ (Vector.mem_toList_iff.mpr (a.lower.get_mem_entries _))

theorem maxAbs_eq (a : Symmetric ℝ n) : a.maxAbs = 0 ∨ ∃ i j, |a.get i j| = a.maxAbs := by
  have hfound := (foldl_max Scalar.abs a.lower.entries.toList 0).2.2
  rw [← maxAbs_eq_foldl] at hfound
  apply hfound.imp_right
  rintro ⟨v, hv, heq⟩
  obtain ⟨i, j, hj, rfl⟩ := Triangle.exists_get_of_mem (Vector.mem_toList_iff.mp hv)
  refine ⟨i, j, ?_⟩
  rw [get, dif_pos hj]
  exact heq

theorem maxAbs_le {a : Symmetric ℝ n} {m : ℝ} (hm : 0 ≤ m)
    (h : ∀ i j, |a.get i j| ≤ m) : a.maxAbs ≤ m := by
  rcases a.maxAbs_eq with hzero | ⟨i, j, hij⟩
  · exact hzero.trans_le hm
  · exact hij.symm.trans_le (h i j)

end Symmetric

namespace Lower

variable [Scalar α]

theorem ext_get {l l' : Lower α n} (h : ∀ i j, j ≤ i → l.get i j = l'.get i j) : l = l' := by
  obtain ⟨s⟩ := l
  obtain ⟨t⟩ := l'
  congr 1
  apply Triangle.ext_get
  intro i j hj
  have hget := h i j hj
  rw [get, get, dif_pos hj, dif_pos hj] at hget
  exact hget

theorem get_toDense (l : Lower α n) (i j : Fin n) : l.toDense.get i j = l.get i j :=
  Dense.get_ofFn l.get i j

theorem toDense_mem (l : Lower α n) : l.toDense ∈ Dense.lower α n := by
  intro i j hij
  rw [get_toDense, l.get_of_lt hij]

theorem ofFn_toDense (l : Lower α n) : ofFn l.toDense.get = l := by
  apply ext_get
  intro i j hj
  rw [get_ofFn, if_pos hj, get_toDense]

theorem toDense_ofFn {d : Dense α n n} (hd : d ∈ Dense.lower α n) : (ofFn d.get).toDense = d := by
  apply Dense.ext_get
  intro i j
  rw [get_toDense, get_ofFn]
  split
  · rfl
  · next hj => exact (hd i j (Fin.not_le.mp hj)).symm

theorem invOn_ofFn : Set.InvOn (fun d : Dense α n n => ofFn d.get) toDense
    (Set.univ : Set (Lower α n)) (Dense.lower α n) :=
  ⟨fun l _ => l.ofFn_toDense, fun _ hd => toDense_ofFn hd⟩

theorem bijOn_toDense : Set.BijOn toDense (Set.univ : Set (Lower α n)) (Dense.lower α n) :=
  invOn_ofFn.bijOn (fun l _ => l.toDense_mem) fun _ _ => Set.mem_univ _

omit [Scalar α] in
theorem ofArray_eq_ok_iff {data : Array α} {l : Lower α n} :
    ofArray n data = .ok l ↔ l.triangle.entries.toArray = data :=
  Triangle.map_ofArray_eq_ok_iff (f := mk) fun _ _ => mk.inj

omit [Scalar α] in
theorem exists_ofArray_iff {data : Array α} :
    (∃ l, ofArray n data = .ok l) ↔ data.size = n * (n + 1) / 2 :=
  Triangle.exists_ofArray_iff (f := mk)

theorem getElem?_toArray (l : Lower α n) {i j : Fin n} (hj : j ≤ i) :
    l.triangle.entries.toArray[triangular i + j]? = some (l.get i j) := by
  rw [l.triangle.getElem?_toArray hj, get, dif_pos hj]

end Lower

end LeastSquares
