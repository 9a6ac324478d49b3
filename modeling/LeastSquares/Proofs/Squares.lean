import LeastSquares.Proofs.Sums

namespace LeastSquares

variable {n : Nat}

/-- A sum of at most `k` squares, told as a multiple of the largest. -/
structure Relative (total top sum : ℝ) (k : Nat) : Prop where
  value : total * top ^ 2 = sum
  range : total = 0 ∧ top = 0 ∨ 0 < top ∧ 1 ≤ total ∧ total ≤ k

namespace Relative

variable {total top sum a : ℝ} {k : Nat}

theorem top_nonneg (h : Relative total top sum k) : 0 ≤ top := by
  rcases h.range with ⟨-, htop⟩ | ⟨htop, -⟩
  · exact htop.ge
  · exact htop.le

theorem nonneg (h : Relative total top sum k) : 0 ≤ total ∧ total ≤ k := by
  rcases h.range with ⟨htotal, -⟩ | ⟨-, hone, hk⟩
  · rw [htotal]
    exact ⟨le_rfl, Nat.cast_nonneg k⟩
  · exact ⟨zero_le_one.trans hone, hk⟩

theorem eq_zero_iff (h : Relative total top sum k) : total = 0 ↔ sum = 0 := by
  rw [← h.value]
  rcases h.range with ⟨htotal, -⟩ | ⟨htop, hone, -⟩
  · simp [htotal]
  · simp [htop.ne']

theorem later (h : Relative total top sum k) : Relative total top sum (k + 1) where
  value := h.value
  range := h.range.imp_right fun ⟨htop, hone, hk⟩ =>
    ⟨htop, hone, hk.trans (by exact_mod_cast Nat.le_succ k)⟩

theorem raise (h : Relative total top sum k) (ha : top < a) :
    top / a ∈ Set.Icc 0 1 ∧
      Relative (1 + total * square (top / a)) a (sum + a ^ 2) (k + 1) := by
  have hpos : 0 < a := h.top_nonneg.trans_lt ha
  have hratio : top / a ∈ Set.Icc 0 1 :=
    ⟨div_nonneg h.top_nonneg hpos.le, (div_le_one hpos).mpr ha.le⟩
  obtain ⟨hnonneg, hk⟩ := h.nonneg
  have hsquare : square (top / a) ∈ Set.Icc 0 1 :=
    ⟨mul_self_nonneg _, mul_le_one₀ hratio.2 hratio.1 hratio.2⟩
  refine ⟨hratio, ?_, .inr ⟨hpos, ?_, ?_⟩⟩
  · rw [← h.value]
    unfold square
    field_simp
    ring
  · exact le_add_of_nonneg_right (mul_nonneg hnonneg hsquare.1)
  · have hle := mul_le_of_le_one_right hnonneg hsquare.2
    push_cast
    linarith

theorem join (h : Relative total top sum k) (hpos : 0 < a) (ha : a ≤ top) :
    a / top ∈ Set.Icc 0 1 ∧
      Relative (total + square (a / top)) top (sum + a ^ 2) (k + 1) := by
  have htop : 0 < top := hpos.trans_le ha
  have hratio : a / top ∈ Set.Icc 0 1 := ⟨div_nonneg hpos.le htop.le, (div_le_one htop).mpr ha⟩
  have hsquare : square (a / top) ∈ Set.Icc 0 1 :=
    ⟨mul_self_nonneg _, mul_le_one₀ hratio.2 hratio.1 hratio.2⟩
  obtain ⟨-, hzero⟩ | ⟨-, hone, hk⟩ := h.range
  · exact absurd hzero htop.ne'
  refine ⟨hratio, ?_, .inr ⟨htop, ?_, ?_⟩⟩
  · rw [← h.value]
    unfold square
    field_simp
  · exact le_add_of_le_of_nonneg hone hsquare.1
  · push_cast
    exact add_le_add hk hsquare.2

end Relative

/-- The squares of those components of a list that are of one kind. -/
noncomputable def squaresOf (q : ℝ → Prop) [DecidablePred q] (l : List ℝ) : ℝ :=
  (l.map fun x => if q x then x ^ 2 else 0).sum

section

variable {q r : ℝ → Prop} [DecidablePred q] [DecidablePred r] {l : List ℝ} {x : ℝ}

theorem squaresOf_concat (q : ℝ → Prop) [DecidablePred q] (l : List ℝ) (x : ℝ) :
    squaresOf q (l ++ [x]) = squaresOf q l + if q x then |x| ^ 2 else 0 := by
  simp [squaresOf]

theorem Relative.skip {total top : ℝ} (h : Relative total top (squaresOf q l) l.length)
    (hx : ¬q x) : Relative total top (squaresOf q (l ++ [x])) (l ++ [x]).length := by
  rw [squaresOf_concat, if_neg hx, add_zero, List.length_append]
  exact h.later

theorem Relative.take {total top : ℝ}
    (h : Relative total top (squaresOf q l + |x| ^ 2) (l.length + 1)) (hx : q x) :
    Relative total top (squaresOf q (l ++ [x])) (l ++ [x]).length := by
  rw [squaresOf_concat, if_pos hx, List.length_append]
  exact h

theorem squaresOf_split (h : ∀ x, q x → ¬r x) :
    squaresOf q l + squaresOf r l = squaresOf (fun x => q x ∨ r x) l := by
  unfold squaresOf
  rw [← List.sum_map_add]
  congr 1
  apply List.map_congr_left
  intro x _
  by_cases hq : q x
  · simp [hq, h x hq]
  · simp [hq]

theorem squaresOf_eq_zero (h : ∀ x ∈ l, ¬q x) : squaresOf q l = 0 := by
  apply List.sum_eq_zero
  intro t ht
  obtain ⟨x, hx, rfl⟩ := List.mem_map.mp ht
  exact if_neg (h x hx)

theorem sq_le_squaresOf (hx : x ∈ l) (h : q x) : x ^ 2 ≤ squaresOf q l := by
  apply List.single_le_sum
  · intro t ht
    obtain ⟨y, -, rfl⟩ := List.mem_map.mp ht
    split
    · exact sq_nonneg y
    · exact le_rfl
  · exact List.mem_map.mpr ⟨x, hx, if_pos h⟩

theorem squaresOf_toList (q : ℝ → Prop) [DecidablePred q] (v : Vector ℝ n) :
    squaresOf q v.toList = ∑ i : Fin n with q v[i], v[i] ^ 2 := by
  rw [Finset.sum_filter, ← List.sum_ofFn]
  unfold squaresOf
  congr 1
  apply List.ext_getElem
  · simp
  · intro i hi hi'
    simp

end

namespace Squares

/-- How a component of size `a` is taken in. A sum of large or of small squares gets the square of
a ratio. -/
inductive Takes (high low a : ℝ) (s : Squares ℝ) : Squares ℝ → Prop
  | middle (hlow : low < a) (hhigh : a < high) :
      Takes high low a s { s with middle := s.middle + a * a }
  | raiseLarge (hlarge : high ≤ a) (htop : s.largeMax < a)
      (hratio : s.largeMax / a ∈ Set.Icc 0 1) : Takes high low a s
        { s with large := 1 + s.large * square (s.largeMax / a), largeMax := a }
  | joinLarge (hlarge : high ≤ a) (htop : a ≤ s.largeMax)
      (hratio : a / s.largeMax ∈ Set.Icc 0 1) :
      Takes high low a s { s with large := s.large + square (a / s.largeMax) }
  | raiseSmall (hsmall : a ≤ low) (htop : s.smallMax < a)
      (hratio : s.smallMax / a ∈ Set.Icc 0 1) : Takes high low a s
        { s with small := 1 + s.small * square (s.smallMax / a), smallMax := a }
  | joinSmall (hsmall : a ≤ low) (hpos : 0 < a) (htop : a ≤ s.smallMax)
      (hratio : a / s.smallMax ∈ Set.Icc 0 1) :
      Takes high low a s { s with small := s.small + square (a / s.smallMax) }
  | nothing (hzero : a = 0) : Takes high low a s s

/-- The squares of the components of a list, each in the sum of its kind. -/
structure Gathers (high low : ℝ) (l : List ℝ) (s : Squares ℝ) : Prop where
  large : Relative s.large s.largeMax (squaresOf (fun x => high ≤ |x|) l) l.length
  middle : s.middle = squaresOf (fun x => low < |x| ∧ |x| < high) l
  small : Relative s.small s.smallMax (squaresOf (fun x => |x| ≤ low) l) l.length
  middle_lt : s.middle = 0 ∨ 0 < s.middle ∧ s.middle < l.length * high ^ 2

variable {high low x : ℝ} {l : List ℝ} {s s' : Squares ℝ}

theorem gathers_nil : Gathers high low [] ⟨0, 0, 0, 0, 0⟩ where
  large := ⟨by simp [squaresOf], .inl ⟨rfl, rfl⟩⟩
  middle := by simp [squaresOf]
  small := ⟨by simp [squaresOf], .inl ⟨rfl, rfl⟩⟩
  middle_lt := .inl rfl

structure Graded (high low : ℝ) : Prop where
  low_pos : 0 < low
  low_lt : low < high

theorem takes_add (hgraded : Graded high low) (hs : Gathers high low l s) :
    Takes high low |x| s (s.add high low x) := by
  unfold add
  rw [abs_eq]
  dsimp only
  by_cases hmiddle : high ≤ |x| ∨ |x| ≤ low
  · rw [if_pos hmiddle]
    by_cases hlarge : low < |x|
    · have hhigh : high ≤ |x| := hmiddle.resolve_right (not_le.mpr hlarge)
      rw [if_pos hlarge]
      by_cases htop : s.largeMax < |x|
      · rw [if_pos htop]
        exact .raiseLarge hhigh htop (hs.large.raise htop).1
      · have hpos : 0 < |x| := hgraded.low_pos.trans hlarge
        rw [if_neg htop]
        exact .joinLarge hhigh (not_lt.mp htop) (hs.large.join hpos (not_lt.mp htop)).1
    · have hsmall : |x| ≤ low := not_lt.mp hlarge
      rw [if_neg hlarge]
      by_cases htop : s.smallMax < |x|
      · rw [if_pos htop]
        exact .raiseSmall hsmall htop (hs.small.raise htop).1
      · rw [if_neg htop]
        by_cases hzero : |x| = 0
        · rw [if_pos (beq_iff.mpr hzero)]
          exact .nothing hzero
        · have hpos : 0 < |x| := lt_of_le_of_ne (abs_nonneg x) (Ne.symm hzero)
          rw [if_neg (beq_iff.not.mpr hzero)]
          exact .joinSmall hsmall hpos (not_lt.mp htop) (hs.small.join hpos (not_lt.mp htop)).1
  · obtain ⟨hhigh, hlow⟩ := not_or.mp hmiddle
    rw [if_neg hmiddle]
    exact .middle (not_le.mp hlow) (not_le.mp hhigh)

theorem Gathers.middle_later (hs : Gathers high low l s) (hx : ¬(low < |x| ∧ |x| < high)) :
    s.middle = squaresOf (fun x => low < |x| ∧ |x| < high) (l ++ [x]) := by
  rw [squaresOf_concat, if_neg hx, add_zero]
  exact hs.middle

theorem Gathers.middle_lt_later (hs : Gathers high low l s) (x : ℝ) :
    s.middle = 0 ∨ 0 < s.middle ∧ s.middle < (l ++ [x]).length * high ^ 2 := by
  refine hs.middle_lt.imp_right fun ⟨hpos, hlt⟩ => ⟨hpos, hlt.trans_le ?_⟩
  apply mul_le_mul_of_nonneg_right _ (sq_nonneg high)
  simp

theorem gathers_of_takes (hgraded : Graded high low) (hs : Gathers high low l s)
    (h : Takes high low |x| s s') : Gathers high low (l ++ [x]) s' := by
  obtain ⟨hlow, hlt⟩ := hgraded
  have hlarge_later (hx : |x| < high) := hs.large.skip (not_le.mpr hx)
  have hsmall_later (hx : low < |x|) := hs.small.skip (not_le.mpr hx)
  cases h with
  | middle hlow' hhigh =>
    have hsum : s.middle + |x| * |x| = squaresOf (fun x => low < |x| ∧ |x| < high) (l ++ [x]) := by
      rw [squaresOf_concat, if_pos ⟨hlow', hhigh⟩, hs.middle, sq]
    have hsq : 0 < |x| * |x| ∧ |x| * |x| < high ^ 2 := by
      rw [sq]
      have hpos := hlow.trans hlow'
      exact ⟨mul_pos hpos hpos, mul_lt_mul'' hhigh hhigh hpos.le hpos.le⟩
    refine ⟨hlarge_later hhigh, hsum, hsmall_later hlow', .inr ?_⟩
    rw [List.length_append, List.length_singleton]
    push_cast
    rcases hs.middle_lt with hzero | ⟨hpos, hbound⟩
    · have hlength : 0 ≤ (l.length : ℝ) * high ^ 2 := by positivity
      rw [hzero]
      constructor <;> linarith
    · constructor <;> linarith
  | raiseLarge hlarge htop =>
    exact ⟨(hs.large.raise htop).2.take hlarge, hs.middle_later fun hx => hx.2.not_ge hlarge,
      hsmall_later (hlt.trans_le hlarge), hs.middle_lt_later x⟩
  | joinLarge hlarge htop =>
    have hpos : 0 < |x| := (hlow.trans hlt).trans_le hlarge
    exact ⟨(hs.large.join hpos htop).2.take hlarge, hs.middle_later fun hx => hx.2.not_ge hlarge,
      hsmall_later (hlt.trans_le hlarge), hs.middle_lt_later x⟩
  | raiseSmall hsmall htop =>
    exact ⟨hlarge_later (hsmall.trans_lt hlt), hs.middle_later fun hx => hx.1.not_ge hsmall,
      (hs.small.raise htop).2.take hsmall, hs.middle_lt_later x⟩
  | joinSmall hsmall hpos htop =>
    exact ⟨hlarge_later (hsmall.trans_lt hlt), hs.middle_later fun hx => hx.1.not_ge hsmall,
      (hs.small.join hpos htop).2.take hsmall, hs.middle_lt_later x⟩
  | nothing hzero =>
    have hsmall : |x| ≤ low := hzero.trans_le hlow.le
    refine ⟨hlarge_later (hsmall.trans_lt hlt), hs.middle_later fun hx => hx.1.not_ge hsmall,
      Relative.take ?_ hsmall, hs.middle_lt_later x⟩
    rw [hzero, zero_pow two_ne_zero, add_zero]
    exact hs.small.later

theorem gathers_foldl (hgraded : Graded high low) (l : List ℝ) :
    Gathers high low l (l.foldl (add high low) ⟨0, 0, 0, 0, 0⟩) := by
  induction l using List.reverseRecOn with
  | nil => exact gathers_nil
  | append_singleton l x ih =>
    rw [List.foldl_append]
    exact gathers_of_takes hgraded ih (takes_add hgraded ih)

namespace Gathers

theorem large_ne_zero_iff (hs : Gathers high low l s) (hgraded : Graded high low) :
    s.large ≠ 0 ↔ ∃ x ∈ l, high ≤ |x| := by
  rw [Ne, hs.large.eq_zero_iff]
  constructor
  · intro hsum
    by_contra hnone
    push Not at hnone
    exact hsum (squaresOf_eq_zero fun x hx => not_le.mpr (hnone x hx))
  · rintro ⟨x, hx, hlarge⟩ hsum
    have hpos : 0 < x ^ 2 := by
      rw [← sq_abs]
      exact pow_pos ((hgraded.low_pos.trans hgraded.low_lt).trans_le hlarge) 2
    exact (hpos.trans_le (sq_le_squaresOf hx hlarge)).ne' hsum

end Gathers

theorem root_sq (hs : Gathers high low l s) : 0 ≤ s.root ∧ s.root ^ 2 =
    if s.large ≠ 0 then s.large * s.largeMax ^ 2 + s.middle
    else s.middle + s.small * s.smallMax ^ 2 := by
  have hmiddle : 0 ≤ s.middle := by
    rcases hs.middle_lt with hzero | ⟨hpos, -⟩
    · exact hzero.ge
    · exact hpos.le
  have htop := hs.small.top_nonneg
  have hsmall := hs.small.nonneg.1
  unfold root
  simp only [sqrt_eq, bne_iff_ne]
  -- Each branch divides by a positive number and multiplies by it again under the root.
  by_cases hlarge : s.large = 0
  · rw [if_neg (not_not.mpr hlarge), if_neg (not_not.mpr hlarge)]
    by_cases hzero : s.middle = 0
    · rw [if_neg (not_not.mpr hzero), hzero, mul_pow, Real.sq_sqrt hsmall]
      exact ⟨mul_nonneg htop (Real.sqrt_nonneg _), by ring⟩
    · have hpos : 0 < s.middle := lt_of_le_of_ne hmiddle (Ne.symm hzero)
      rw [if_pos hzero]
      split
      · refine ⟨Real.sqrt_nonneg _, ?_⟩
        rw [Real.sq_sqrt (by positivity)]
        field_simp
      · next hbelow =>
        have htop : 0 < s.smallMax := hpos.trans (not_le.mp hbelow)
        refine ⟨Real.sqrt_nonneg _, ?_⟩
        rw [Real.sq_sqrt (by positivity)]
        field_simp
  · obtain ⟨hzero, -⟩ | ⟨htop, hone, -⟩ := hs.large.range
    · exact absurd hzero hlarge
    · rw [if_pos hlarge, if_pos hlarge]
      have hinner : 0 ≤ s.large + s.middle / s.largeMax / s.largeMax := by positivity
      refine ⟨mul_nonneg htop.le (Real.sqrt_nonneg _), ?_⟩
      rw [mul_pow, Real.sq_sqrt hinner]
      field_simp

namespace Gathers

theorem root_sq_of_lt (hs : Gathers high low l s) (hgraded : Graded high low)
    (hsmall : ∀ x ∈ l, |x| < high) : s.root ^ 2 = squaresOf (fun x => |x| < high) l := by
  have hnone : ¬s.large ≠ 0 := by
    rw [hs.large_ne_zero_iff hgraded]
    rintro ⟨x, hx, hhigh⟩
    exact (hsmall x hx).not_ge hhigh
  have hapart (x : ℝ) (hx : low < |x| ∧ |x| < high) : ¬|x| ≤ low := hx.1.not_ge
  have hkind (x : ℝ) : (low < |x| ∧ |x| < high) ∨ |x| ≤ low ↔ |x| < high := by
    constructor
    · rintro (hx | hx)
      · exact hx.2
      · exact hx.trans_lt hgraded.low_lt
    · exact fun hx => (lt_or_ge low |x|).imp_left fun hlow => ⟨hlow, hx⟩
  rw [(root_sq hs).2, if_neg hnone, hs.middle, hs.small.value, squaresOf_split hapart]
  simp only [hkind]

theorem root_sq_of_le (hs : Gathers high low l s) (hgraded : Graded high low) (hx : x ∈ l)
    (hlarge : high ≤ |x|) : s.root ^ 2 = squaresOf (fun x => low < |x|) l := by
  have hsome : s.large ≠ 0 := (hs.large_ne_zero_iff hgraded).mpr ⟨x, hx, hlarge⟩
  have hapart (x : ℝ) (hx : high ≤ |x|) : ¬(low < |x| ∧ |x| < high) :=
    fun hmiddle => hmiddle.2.not_ge hx
  have hkind (x : ℝ) : (high ≤ |x| ∨ low < |x| ∧ |x| < high) ↔ low < |x| := by
    constructor
    · rintro (hx | hx)
      · exact hgraded.low_lt.trans_le hx
      · exact hx.1
    · exact fun hx => (le_or_gt high |x|).imp_right fun hlt => ⟨hx, hlt⟩
  rw [(root_sq hs).2, if_pos hsome, hs.large.value, hs.middle, squaresOf_split hapart]
  simp only [hkind]

end Gathers

end Squares

theorem giant_sq (n : Nat) : (giant n : ℝ) ^ 2 = Scalar.huge / n ^ 2 := by
  change (√Scalar.huge / n) ^ 2 = _
  rw [div_pow, Real.sq_sqrt huge_pos.le]

theorem sqrtTiny_sq : (sqrtTiny : ℝ) ^ 2 = Scalar.tiny := by
  change √(2⁻¹ ^ 1022) ^ 2 = (2⁻¹ ^ 1022 : ℝ)
  rw [Real.sq_sqrt (by positivity)]

noncomputable def squaresAfter (v : Vector ℝ n) (k : Nat) : Squares ℝ :=
  (v.toList.take k).foldl (Squares.add (giant n) sqrtTiny) ⟨0, 0, 0, 0, 0⟩

theorem squares_eq (v : Vector ℝ n) : squares v = squaresAfter v n := by
  unfold squares squaresAfter
  rw [List.take_of_length_le (by simp), Vector.foldl_toList]

theorem squaresAfter_succ (v : Vector ℝ n) (i : Fin n) :
    squaresAfter v (i + 1) = (squaresAfter v i).add (giant n) sqrtTiny v[i] := by
  have hi : (i : Nat) < v.toList.length := by simp
  unfold squaresAfter
  rw [List.take_succ_eq_append_getElem hi, List.foldl_append]
  simp

/-- No sum is out of the range of doubles. -/
structure Squares.Within (n : Nat) (s : Squares ℝ) : Prop where
  large : s.large = 0 ∨ s.large ∈ Set.Icc 1 (n : ℝ)
  small : s.small = 0 ∨ s.small ∈ Set.Icc 1 (n : ℝ)
  middle : 0 ≤ s.middle ∧ s.middle < Scalar.huge / n

theorem Relative.within {total top sum : ℝ} {k : Nat} (h : Relative total top sum k)
    (hk : k ≤ n) : total = 0 ∨ total ∈ Set.Icc 1 (n : ℝ) :=
  h.range.imp And.left fun ⟨_, hone, hle⟩ => ⟨hone, hle.trans (by exact_mod_cast hk)⟩

theorem Squares.Gathers.within {l : List ℝ} {s : Squares ℝ} (hn : 0 < n)
    (hs : s.Gathers (giant n) sqrtTiny l) (hl : l.length ≤ n) : s.Within n := by
  have hcount : (0 : ℝ) < n := by exact_mod_cast hn
  refine ⟨hs.large.within hl, hs.small.within hl, ?_⟩
  rcases hs.middle_lt with hzero | ⟨hpos, hlt⟩
  · rw [hzero]
    exact ⟨le_rfl, div_pos huge_pos hcount⟩
  · refine ⟨hpos.le, hlt.trans_le ?_⟩
    calc (l.length : ℝ) * giant n ^ 2 ≤ n * giant n ^ 2 :=
          mul_le_mul_of_nonneg_right (by exact_mod_cast hl) (sq_nonneg _)
      _ = Scalar.huge / n := by
          rw [giant_sq]
          field_simp

/-- What a norm is computed from, component by component, and what it comes to. -/
structure Measures (v : Vector ℝ n) : Prop where
  squares : squares v = squaresAfter v n
  takes : ∀ i : Fin n,
    (squaresAfter v i).Takes (giant n) sqrtTiny |v[i]| (squaresAfter v (i + 1))
  apart : ∀ i : Fin n, sqrtTiny < |v[i]| → |v[i]| < giant n →
    |v[i]| * |v[i]| ∈ Set.Ioo (Scalar.tiny : ℝ) (Scalar.huge / n ^ 2)
  within : ∀ k, (squaresAfter v k).Within n
  nonneg : 0 ≤ safeNorm v
  whole : (∀ i : Fin n, |v[i]| < giant n) → safeNorm v ^ 2 = ∑ i : Fin n, v[i] ^ 2
  large : (∃ i : Fin n, giant n ≤ |v[i]|) →
    safeNorm v ^ 2 = ∑ i : Fin n with sqrtTiny < |v[i]|, v[i] ^ 2

theorem safeNorm_eq (hn : 0 < n) (v : Vector ℝ n) : safeNorm v = (squares v).root := by
  have hnone : v.find? Scalar.isNaN = none := by
    rw [Vector.find?_eq_none]
    intro x _
    exact Bool.false_ne_true
  unfold safeNorm
  rw [if_neg hn.ne', hnone]

/-- In exact arithmetic the norm is that of all components, unless some are large: then the small
ones are lost. -/
theorem safeNorm_measures (hn : 0 < n) (hgiant : (1 : ℝ) ≤ giant n) (v : Vector ℝ n) :
    Measures v := by
  have hgraded : Squares.Graded (giant n) sqrtTiny :=
    ⟨sqrtTiny_pos, sqrtTiny_lt_one.trans_le hgiant⟩
  have hgathers (k : Nat) :
      (squaresAfter v k).Gathers (giant n) sqrtTiny (v.toList.take k) :=
    Squares.gathers_foldl hgraded _
  have hall : (squares v).Gathers (giant n) sqrtTiny v.toList := by
    have h := hgathers n
    rwa [List.take_of_length_le (by simp), ← squares_eq] at h
  constructor
  case squares => exact squares_eq v
  case takes =>
    intro i
    rw [squaresAfter_succ]
    exact Squares.takes_add hgraded (hgathers i)
  case apart =>
    intro i hlow hhigh
    rw [← sqrtTiny_sq, ← giant_sq, ← sq]
    exact ⟨pow_lt_pow_left₀ hlow sqrtTiny_pos.le two_ne_zero,
      pow_lt_pow_left₀ hhigh (abs_nonneg _) two_ne_zero⟩
  case within =>
    intro k
    exact (hgathers k).within hn (by simp)
  case nonneg =>
    rw [safeNorm_eq hn]
    exact (Squares.root_sq hall).1
  case whole =>
    intro hsmall
    have hmember : ∀ x ∈ v.toList, |x| < giant n := by
      intro x hx
      obtain ⟨i, hi, rfl⟩ := Vector.getElem_of_mem (Vector.mem_toList_iff.mp hx)
      exact hsmall ⟨i, hi⟩
    rw [safeNorm_eq hn, hall.root_sq_of_lt hgraded hmember, squaresOf_toList,
      Finset.filter_true_of_mem fun i _ => hsmall i]
  case large =>
    rintro ⟨i, hhigh⟩
    have hmem : v[i] ∈ v.toList := by simp
    rw [safeNorm_eq hn, hall.root_sq_of_le hgraded hmem hhigh, squaresOf_toList]

theorem one_le_giant (hn : 0 < n) (hle : n ≤ 2 ^ 64) : (1 : ℝ) ≤ giant n := by
  have hcount : (0 : ℝ) < n := by exact_mod_cast hn
  change 1 ≤ √((2 - 2⁻¹ ^ 52) * 2 ^ 1023) / n
  rw [one_le_div hcount]
  apply Real.le_sqrt_of_sq_le
  calc (n : ℝ) ^ 2 ≤ (2 ^ 64) ^ 2 := pow_le_pow_left₀ hcount.le (by exact_mod_cast hle) 2
    _ ≤ 2 ^ 1023 := by
        rw [← pow_mul]
        exact pow_le_pow_right₀ one_le_two (by norm_num)
    _ ≤ (2 - 2⁻¹ ^ 52) * 2 ^ 1023 := le_mul_of_one_le_left (by positivity) (by norm_num)

theorem safeNorm_measures_mixed :
    0 < 3 ∧ (1 : ℝ) ≤ giant 3 ∧ Measures #v[10 ^ 200, 1, 10⁻¹ ^ 200] :=
  ⟨by decide, one_le_giant (by decide) (by decide),
    safeNorm_measures (by decide) (one_le_giant (by decide) (by decide)) _⟩

end LeastSquares
