import LeastSquares.ForwardDifference
import LeastSquares.Proofs.Linear.Minimizer
import LeastSquares.Proofs.Packed.Storage

namespace LeastSquares

variable {α β σ : Type} {n p : Nat}

namespace Callback

/-- The function may fail when it likes, but its value is told by the point alone. -/
def Tells (f : Callback α σ p β) (value : Vector α p → β) : Prop :=
  ∀ x s r s', f x s = (.ok r, s') → r = value x

variable (f : Callback α σ p (Array α)) (value : Vector α p → Array α) (n : Nat)

/-- One call at each of a list of points, in its order, of which none fails and all values have
the same length. -/
inductive Answers : List (Vector α p) → σ → σ → Prop
  | nil (s : σ) : Answers [] s s
  | cons {x : Vector α p} {xs : List (Vector α p)} {s s' s'' : σ}
      (hcall : f x s = (.ok (value x), s')) (hsize : (value x).size = n)
      (hrest : Answers xs s' s'') : Answers (x :: xs) s s''

/-- The calls at a list of points, in its order, up to one that fails or whose value has another
length. It is the last. -/
inductive Refuses : Failure → List (Vector α p) → σ → σ → Prop
  | fails {x : Vector α p} {xs : List (Vector α p)} {s s' : σ} {e : Failure}
      (hcall : f x s = (.error e, s')) : Refuses e (x :: xs) s s'
  | changes {x : Vector α p} {xs : List (Vector α p)} {s s' : σ}
      (hcall : f x s = (.ok (value x), s')) (hsize : (value x).size ≠ n) :
      Refuses (.lengthChanged n (value x).size) (x :: xs) s s'
  | later {x : Vector α p} {xs : List (Vector α p)} {s s' s'' : σ} {e : Failure}
      (hcall : f x s = (.ok (value x), s')) (hsize : (value x).size = n)
      (hrest : Refuses e xs s' s'') : Refuses e (x :: xs) s s''

variable {f value}

theorem Tells.answers_or_refuses (hf : f.Tells value) (n : Nat) (xs : List (Vector α p)) (s : σ) :
    (∃ s', f.Answers value n xs s s') ∨ ∃ e s', f.Refuses value n e xs s s' := by
  induction xs generalizing s with
  | nil => exact .inl ⟨s, .nil s⟩
  | cons x xs ih =>
    rcases hcall : f x s with ⟨e | r, s'⟩
    · exact .inr ⟨e, s', .fails hcall⟩
    obtain rfl := hf x s r s' hcall
    by_cases hsize : (value x).size = n
    · rcases ih s' with ⟨s'', h⟩ | ⟨e, s'', h⟩
      · exact .inl ⟨s'', .cons hcall hsize h⟩
      · exact .inr ⟨e, s'', .later hcall hsize h⟩
    · exact .inr ⟨_, s', .changes hcall hsize⟩

def recording (value : Vector α p → β) : Callback α (List (Vector α p)) p β :=
  fun x log => (.ok (value x), log ++ [x])

theorem recording_tells (value : Vector α p → β) : (recording value).Tells value := by
  intro x log r log' h
  cases h
  rfl

theorem recording_answers (hsize : ∀ x, (value x).size = n) (xs log : List (Vector α p)) :
    (recording value).Answers value n xs log (log ++ xs) := by
  induction xs generalizing log with
  | nil =>
    rw [List.append_nil]
    exact .nil log
  | cons x xs ih =>
    rw [List.append_cons]
    exact .cons rfl (hsize x) (ih _)

end Callback

namespace ForwardDifference

variable [Scalar α]

def ahead (step : α) (x : Vector α p) (j : Fin p) : Vector α p := x.set j (moved step x j) j.isLt

section

variable {d : ForwardDifference α σ p} {value : Vector α p → Array α} {x : Vector α p}
  {r : Vector α n} {j : Fin p} {js : List (Fin p)} {a : Vector (Vector α n) p} {s s' : σ}
  {e : Failure}

theorem columns_cons_of_error (h : d.residual (ahead d.step x j) s = (.error e, s')) :
    d.columns x r (j :: js) x a s = (.error e, s') := by
  rw [columns, ← ahead, h]

theorem columns_cons_of_ok {f : Array α} (h : d.residual (ahead d.step x j) s = (.ok f, s')) :
    d.columns x r (j :: js) x a s =
      if h : f.size = n then
        d.columns x r js x (a.set j (column d.step x r ⟨f, h⟩ j) j.isLt) s'
      else (.error (.lengthChanged n f.size), s') := by
  have hback : (ahead d.step x j).set j x[j] j.isLt = x := by simp [ahead]
  rw [columns, ← ahead, h, hback]

theorem columns_of_refuses (h : d.residual.Refuses value n e (js.map (ahead d.step x)) s s') :
    d.columns x r js x a s = (.error e, s') := by
  induction js generalizing a s with
  | nil => cases h
  | cons j js ih =>
    cases h with
    | fails hcall => exact columns_cons_of_error hcall
    | changes hcall hsize =>
      rw [columns_cons_of_ok hcall]
      exact dif_neg hsize
    | later hcall hsize hrest =>
      rw [columns_cons_of_ok hcall]
      exact (dif_pos hsize).trans (ih hrest)

theorem columns_of_answers (h : d.residual.Answers value n (js.map (ahead d.step x)) s s') :
    ∃ a', d.columns x r js x a s = (.ok ⟨a'⟩, s') ∧ (∀ j ∉ js, a'[j] = a[j]) ∧
      ∀ j ∈ js, ∃ hsize : (value (ahead d.step x j)).size = n,
        a'[j] = column d.step x r ⟨value (ahead d.step x j), hsize⟩ j := by
  induction js generalizing a s with
  | nil =>
    cases h
    exact ⟨a, rfl, fun _ _ => rfl, nofun⟩
  | cons j js ih =>
    cases h with
    | cons hcall hsize hrest =>
      let c := column d.step x r ⟨value (ahead d.step x j), hsize⟩ j
      obtain ⟨a', hcolumns, hother, hset⟩ := ih (a := a.set j c j.isLt) hrest
      refine ⟨a', ?_, ?_, ?_⟩
      · rw [columns_cons_of_ok hcall]
        exact (dif_pos hsize).trans hcolumns
      · intro k hk
        obtain ⟨hne, hk⟩ := not_or.mp (List.mem_cons.not.mp hk)
        rw [hother k hk]
        exact Vector.getElem_set_ne _ _ fun h => hne (Fin.ext h.symm)
      · intro k hk
        by_cases hmem : k ∈ js
        · exact hset k hmem
        · obtain rfl := (List.mem_cons.mp hk).resolve_right hmem
          exact ⟨hsize, (hother k hmem).trans (Vector.getElem_set_self _)⟩

def points (d : ForwardDifference α σ p) (x : Vector α p) : List (Vector α p) :=
  x :: (List.finRange p).map (ahead d.step x)

theorem evaluate_of_refuses
    (h : d.residual.Refuses value (value x).size e (d.points x) s s') :
    d.evaluate x .jacobian s = (.error e, s') := by
  unfold evaluate
  cases h with
  | fails hcall => rw [hcall]
  | changes _ hsize => exact absurd rfl hsize
  | later hcall _ hrest =>
    rw [hcall]
    dsimp only
    rw [columns_of_refuses hrest]

theorem evaluate_residuals (hvalue : d.residual.Tells value) (s : σ) :
    d.evaluate x .residuals s =
      ((d.residual x s).1.map fun _ => ⟨value x, none⟩, (d.residual x s).2) := by
  unfold evaluate
  rcases hcall : d.residual x s with ⟨e | r, s'⟩
  · rfl
  · obtain rfl := hvalue x s r s' hcall
    rfl

end

section

variable {d : ForwardDifference ℝ σ p} {value : Vector ℝ p → Array ℝ} {x : Vector ℝ p} {s s' : σ}

theorem moved_eq_add (step : ℝ) (x : Vector ℝ p) (j : Fin p) :
    moved step x j = x[j] + step * max |x[j]| 1 := rfl

theorem coords_ahead (step : ℝ) (x : Vector ℝ p) (j : Fin p) :
    coords (ahead step x j) = coords x + Pi.single j (step * max |x[j]| 1) := by
  rw [ahead, moved_eq_add, coords_set_add]

noncomputable def quotients (step : ℝ) (value : Vector ℝ p → Array ℝ) (x : Vector ℝ p) :
    Dense ℝ (value x).size p :=
  .ofFn fun i j => ((value (ahead step x j)).getD i 0 - (value x)[i]) / (step * max |x[j]| 1)

theorem get_column (step : ℝ) (x : Vector ℝ p) {value : Vector ℝ p → Array ℝ} {j : Fin p}
    (hsize : (value (ahead step x j)).size = (value x).size) (i : Fin (value x).size) :
    (column step x (value x).toVector ⟨value (ahead step x j), hsize⟩ j)[i] =
      (quotients step value x).get i j := by
  have hi : (i : Nat) < (value (ahead step x j)).size := i.isLt.trans_eq hsize.symm
  rw [quotients, Dense.get_ofFn]
  simp [column, hi, moved_eq_add]

theorem evaluate_of_answers (h : d.residual.Answers value (value x).size (d.points x) s s') :
    d.evaluate x .jacobian s =
      (.ok ⟨value x, some ⟨_, _, quotients d.step value x⟩⟩, s') := by
  cases h with
  | cons hcall _ hrest =>
    obtain ⟨c, hcolumns, -, hset⟩ := columns_of_answers hrest
    have hc : (⟨c⟩ : Dense ℝ (value x).size p) = quotients d.step value x := by
      apply Dense.ext_get
      intro i j
      obtain ⟨hsize, hj⟩ := hset j (List.mem_finRange j)
      rw [← get_column d.step x hsize, ← hj]
      rfl
    unfold evaluate
    rw [hcall]
    dsimp only
    rw [hcolumns, hc]

theorem evaluate_cases (hvalue : d.residual.Tells value) (x : Vector ℝ p) (s : σ) :
    (∃ s', d.residual.Answers value (value x).size (d.points x) s s' ∧
      d.evaluate x .jacobian s = (.ok ⟨value x, some ⟨_, _, quotients d.step value x⟩⟩, s')) ∨
    ∃ e s', d.residual.Refuses value (value x).size e (d.points x) s s' ∧
      d.evaluate x .jacobian s = (.error e, s') := by
  rcases hvalue.answers_or_refuses (value x).size (d.points x) s with ⟨s', hall⟩ | ⟨e, s', hno⟩
  · exact .inl ⟨s', hall, evaluate_of_answers hall⟩
  · exact .inr ⟨e, s', hno, evaluate_of_refuses hno⟩

theorem evaluate_ok_iff (hvalue : d.residual.Tells value) {e : Evaluation ℝ} :
    d.evaluate x .jacobian s = (.ok e, s') ↔
      d.residual.Answers value (value x).size (d.points x) s s' ∧
        e = ⟨value x, some ⟨_, _, quotients d.step value x⟩⟩ := by
  constructor
  · intro h
    rcases evaluate_cases hvalue x s with ⟨_, hall, heq⟩ | ⟨_, _, _, heq⟩
    · cases heq.symm.trans h
      exact ⟨hall, rfl⟩
    · cases heq.symm.trans h
  · rintro ⟨hall, rfl⟩
    exact evaluate_of_answers hall

theorem evaluate_error_iff (hvalue : d.residual.Tells value) {e : Failure} :
    d.evaluate x .jacobian s = (.error e, s') ↔
      d.residual.Refuses value (value x).size e (d.points x) s s' := by
  constructor
  · intro h
    rcases evaluate_cases hvalue x s with ⟨_, _, heq⟩ | ⟨_, _, hno, heq⟩
    · cases heq.symm.trans h
    · cases heq.symm.trans h
      exact hno
  · exact evaluate_of_refuses

theorem anyDense_eq {a : AnyDense ℝ} {m : Dense ℝ n p} (hrows : a.rows = n) (hcols : a.cols = p)
    (h : ∀ i j, a.entries.get i j = m.get (i.cast hrows) (j.cast hcols)) : a = ⟨n, p, m⟩ := by
  obtain ⟨rows, cols, entries⟩ := a
  subst hrows hcols
  congr 1
  exact Dense.ext_get h

theorem quotients_affine {step : ℝ} (hstep : 0 < step) (A : Dense ℝ n p) (b : Vector ℝ n)
    (x : Vector ℝ p) (hvalue : ∀ z, value z = (A.misfit b z).toArray) :
    (⟨_, _, quotients step value x⟩ : AnyDense ℝ) = ⟨n, p, A⟩ := by
  have hsize (z : Vector ℝ p) : (value z).size = n := by
    rw [hvalue]
    exact Vector.size_toArray _
  apply anyDense_eq (hsize x) rfl
  intro i j
  dsimp only at i j ⊢
  let k : Fin n := i.cast (hsize x)
  have hpos : 0 < step * max |x[j]| 1 := mul_pos hstep (one_pos.trans_le (le_max_right _ _))
  have hstart : (value x)[i] = coords (A.misfit b x) k := by
    simp [hvalue, coords, k]
  have hend : (value (ahead step x j)).getD i 0 = coords (A.misfit b (ahead step x j)) k := by
    have hi : (i : Nat) < n := k.isLt
    simp [hvalue, coords, k, hi]
  have hchange : coords (A.misfit b (ahead step x j)) k - coords (A.misfit b x) k =
      A.get k j * (step * max |x[j]| 1) := by
    rw [A.coords_misfit, A.coords_misfit, coords_ahead, Matrix.mulVec_add, Matrix.mulVec_single]
    simp [Dense.matrix]
  rw [quotients, Dense.get_ofFn, hstart, hend, hchange, mul_div_cancel_right₀ _ hpos.ne']
  rfl

end

/-- What the calls of a forward difference are, and what comes of them. -/
structure Differences (d : ForwardDifference ℝ σ p) (value : Vector ℝ p → Array ℝ)
    (x : Vector ℝ p) : Prop where
  ahead : ∀ j i : Fin p,
    (ahead d.step x j)[i] = if i = j then x[j] + d.step * max |x[j]| 1 else x[i]
  refused : ∀ s e s', d.evaluate x .jacobian s = (.error e, s') ↔
    d.residual.Refuses value (value x).size e (d.points x) s s'
  answered : ∀ s e s', d.evaluate x .jacobian s = (.ok e, s') ↔
    d.residual.Answers value (value x).size (d.points x) s s' ∧
      e = ⟨value x, some ⟨_, _, quotients d.step value x⟩⟩
  affine : ∀ (n : Nat) (A : Dense ℝ n p) (b : Vector ℝ n),
    (∀ z, value z = (A.misfit b z).toArray) → ∀ s e s',
      d.evaluate x .jacobian s = (.ok e, s') → e = ⟨(A.misfit b x).toArray, some ⟨n, p, A⟩⟩
  residuals : ∀ s, d.evaluate x .residuals s =
    ((d.residual x s).1.map fun _ => ⟨value x, none⟩, (d.residual x s).2)

/-- In exact arithmetic the Jacobian is made of the differences along each coordinate, from one call
ahead for each, and there is none if a call is refused. -/
theorem evaluate_differences {d : ForwardDifference ℝ σ p} (hstep : 0 < d.step)
    {value : Vector ℝ p → Array ℝ} (hvalue : d.residual.Tells value) (x : Vector ℝ p) :
    d.Differences value x := by
  constructor
  case ahead =>
    intro j i
    have hcoords := congrFun (coords_ahead d.step x j) i
    by_cases hi : i = j
    · subst hi
      simpa [coords_apply] using hcoords
    · simpa [coords_apply, hi] using hcoords
  case refused => exact fun s e s' => evaluate_error_iff hvalue
  case answered => exact fun s e s' => evaluate_ok_iff hvalue
  case affine =>
    intro n A b haffine s e s' h
    obtain ⟨-, rfl⟩ := (evaluate_ok_iff hvalue).mp h
    rw [quotients_affine hstep A b x haffine, haffine]
  case residuals => exact evaluate_residuals hvalue

theorem evaluate_differences_square :
    let square (y : Vector ℝ 2) : Array ℝ := (y.map fun t => t * t).toArray
    let d : ForwardDifference ℝ (List (Vector ℝ 2)) 2 := ⟨.recording square, 1⟩
    0 < d.step ∧ d.residual.Tells square ∧ d.Differences square #v[3, 5] ∧
      (d.evaluate #v[3, 5] .jacobian []).2 = [#v[3, 5], #v[6, 5], #v[3, 10]] := by
  intro square d
  have htells : d.residual.Tells square := Callback.recording_tells square
  have hdifferences : d.Differences square #v[3, 5] := evaluate_differences one_pos htells _
  have hpoints : d.points #v[3, 5] = [#v[3, 5], #v[6, 5], #v[3, 10]] := by
    norm_num [points, d, ahead, moved_eq_add, List.finRange]
  have hsize (y : Vector ℝ 2) : (square y).size = (square #v[3, 5]).size := by simp [square]
  have hall := Callback.recording_answers _ hsize (d.points #v[3, 5]) []
  refine ⟨one_pos, htells, hdifferences, ?_⟩
  rw [(hdifferences.answered [] _ _).mpr ⟨hall, rfl⟩, List.nil_append, hpoints]

end ForwardDifference

end LeastSquares
