import Mathlib.Algebra.Order.Field.Power
import Mathlib.Data.Rat.Cast.Order
import Mathlib.Tactic.Linarith
import Mathlib.Tactic.NormNum
import Mathlib.Tactic.Positivity
import Mathlib.Tactic.Ring
import LeastSquares.Decimal.Shortest

namespace LeastSquares

def Decimal.value (d : Decimal) : ℚ := d.coefficient * 10 ^ d.exponent

def Decimal.digits (d : Decimal) : Nat := (Nat.toDigits 10 d.coefficient).length

theorem Decimal.digits_pos (d : Decimal) : 0 < d.digits := Nat.length_toDigits_pos

theorem Decimal.digits_le_iff {d : Decimal} {k : Nat} (hk : 0 < k) :
    d.digits ≤ k ↔ d.coefficient < 10 ^ k :=
  Nat.length_toDigits_le_iff (by decide) hk

theorem Decimal.coefficient_lt (d : Decimal) : d.coefficient < 10 ^ d.digits :=
  (digits_le_iff d.digits_pos).mp le_rfl

theorem Decimal.exists_value_eq (d : Decimal) {e : Int} (he : e ≤ d.exponent) :
    ∃ k : Nat, Decimal.value ⟨k, e⟩ = d.value := by
  refine ⟨d.coefficient * 10 ^ (d.exponent - e).toNat, ?_⟩
  have hpow : (10 : ℚ) ^ (d.exponent - e).toNat * 10 ^ e = 10 ^ d.exponent := by
    rw [← zpow_natCast, ← zpow_add₀ (by norm_num)]
    congr 1
    omega
  rw [value, value, ← hpow]
  push_cast
  ring

theorem Decimal.trim_value (k : Nat) (d : Decimal) : (d.trim k).value = d.value := by
  induction k generalizing d with
  | zero => rfl
  | succ k ih =>
    unfold trim
    split
    · next hzero =>
      obtain ⟨q, hq⟩ := Nat.dvd_of_mod_eq_zero hzero
      rw [ih, value, value, hq, Nat.mul_div_cancel_left q (by decide), zpow_add₀ (by norm_num)]
      push_cast
      ring
    · rfl

theorem Decimal.digits_trim_le (k : Nat) (d : Decimal) : (d.trim k).digits ≤ d.digits := by
  induction k generalizing d with
  | zero => exact le_rfl
  | succ k ih =>
    unfold trim
    split
    · refine (ih _).trans ?_
      rw [digits_le_iff d.digits_pos]
      exact (Nat.div_le_self _ _).trans_lt d.coefficient_lt
    · exact le_rfl

theorem Decimal.trim_pow {j k : Nat} (hjk : j ≤ k) (e : Int) :
    (Decimal.trim k ⟨10 ^ j, e⟩).coefficient = 1 := by
  induction j generalizing k e with
  | zero => cases k <;> rfl
  | succ j ih =>
    obtain ⟨k, rfl⟩ := Nat.exists_eq_add_of_lt hjk
    rw [Nat.pow_succ, trim, if_pos (Nat.mul_mod_left _ _)]
    dsimp only
    rw [Nat.mul_div_cancel _ (by decide)]
    exact ih (by omega) _

theorem Decimal.digits_trim_le_succ {d : Decimal} {j k : Nat} (hjk : j < k)
    (hd : d.coefficient ≤ 10 ^ (j + 1)) : (d.trim k).digits ≤ j + 1 := by
  rcases hd.lt_or_eq with hlt | heq
  · exact (d.digits_trim_le k).trans ((digits_le_iff j.succ_pos).mpr hlt)
  · obtain ⟨c, e⟩ := d
    subst heq
    rw [digits, trim_pow hjk]
    exact Nat.succ_le_succ (Nat.zero_le j)

namespace Rounding

variable {r : Rounding} {d : Decimal} {e : Int}

structure Inside (r : Rounding) : Prop where
  low : r.low < r.value
  high : r.value < r.high
  one : 0 < r.one

theorem holds_iff {x : Nat} : r.holds x = true ↔
    r.closed = true ∧ r.low ≤ x ∧ x ≤ r.high ∨ r.closed = false ∧ r.low < x ∧ x < r.high := by
  unfold holds
  cases r.closed <;> simp

def Admits (r : Rounding) (d : Decimal) : Prop :=
  r.closed = true ∧ (r.low : ℚ) ≤ d.value * r.one ∧ d.value * r.one ≤ r.high ∨
    r.closed = false ∧ (r.low : ℚ) < d.value * r.one ∧ d.value * r.one < r.high

def distance (r : Rounding) (d : Decimal) : ℚ := |d.value * r.one - r.value|

theorem Admits.congr {d' : Decimal} (h : r.Admits d) (hvalue : d'.value = d.value) :
    r.Admits d' := by
  unfold Admits at h ⊢
  rwa [hvalue]

theorem Inside.admits_of_between (h : r.Inside) {d' : Decimal} (hd : r.Admits d)
    (hbetween : d.value * r.one ≤ d'.value * r.one ∧ d'.value * r.one ≤ r.value ∨
      (r.value : ℚ) ≤ d'.value * r.one ∧ d'.value * r.one ≤ d.value * r.one) : r.Admits d' := by
  have hlow : (r.low : ℚ) < r.value := by exact_mod_cast h.low
  have hhigh : (r.value : ℚ) < r.high := by exact_mod_cast h.high
  refine hd.imp (fun ⟨hclosed, hl, hu⟩ => ⟨hclosed, ?_⟩) (fun ⟨hopen, hl, hu⟩ => ⟨hopen, ?_⟩)
  · rcases hbetween with ⟨hle, hge⟩ | ⟨hle, hge⟩ <;> constructor <;> linarith
  · rcases hbetween with ⟨hle, hge⟩ | ⟨hle, hge⟩ <;> constructor <;> linarith

theorem ten_pow_split (e : Int) : (10 : ℚ) ^ e.toNat = 10 ^ e * 10 ^ (-e).toNat := by
  rw [← zpow_natCast, ← zpow_natCast, ← zpow_add₀ (by norm_num)]
  congr 1
  omega

theorem onGrid_one (k : Nat) (e : Int) : ((k * (r.onGrid e).one : Nat) : ℚ) =
    Decimal.value ⟨k, e⟩ * r.one * 10 ^ (-e).toNat := by
  have hsplit := ten_pow_split e
  simp only [onGrid, Decimal.value, Nat.pow_eq]
  push_cast
  rw [hsplit]
  ring

theorem onGrid_holds_iff (k : Nat) (e : Int) :
    (r.onGrid e).holds (k * (r.onGrid e).one) = true ↔ r.Admits ⟨k, e⟩ := by
  have hfine : (0 : ℚ) < 10 ^ (-e).toNat := by positivity
  have hone := onGrid_one (r := r) k e
  have hlow : (((r.onGrid e).low : Nat) : ℚ) = r.low * 10 ^ (-e).toNat := by
    simp [onGrid]
  have hhigh : (((r.onGrid e).high : Nat) : ℚ) = r.high * 10 ^ (-e).toNat := by
    simp [onGrid]
  rw [holds_iff, Admits]
  have hclosed : (r.onGrid e).closed = r.closed := rfl
  rw [hclosed, ← Nat.cast_le (α := ℚ), ← Nat.cast_le (α := ℚ), ← Nat.cast_lt (α := ℚ),
    ← Nat.cast_lt (α := ℚ), hone, hlow, hhigh, mul_le_mul_iff_left₀ hfine,
    mul_le_mul_iff_left₀ hfine, mul_lt_mul_iff_left₀ hfine, mul_lt_mul_iff_left₀ hfine]

def below (r : Rounding) (e : Int) : Nat := (r.onGrid e).value / (r.onGrid e).one

theorem Inside.below_le (h : r.Inside) (e : Int) :
    Decimal.value ⟨r.below e, e⟩ * r.one ≤ r.value ∧
      (r.value : ℚ) < Decimal.value ⟨r.below e + 1, e⟩ * r.one := by
  have hfine : (0 : ℚ) < 10 ^ (-e).toNat := by positivity
  have hone : 0 < (r.onGrid e).one := Nat.mul_pos h.one (Nat.pow_pos (by decide))
  have hvalue : (((r.onGrid e).value : Nat) : ℚ) = r.value * 10 ^ (-e).toNat := by
    simp [onGrid]
  have hfloor : r.below e * (r.onGrid e).one ≤ (r.onGrid e).value := Nat.div_mul_le_self _ _
  have hceil : (r.onGrid e).value < (r.below e + 1) * (r.onGrid e).one := by
    rw [Nat.mul_comm]
    exact Nat.lt_mul_div_succ _ hone
  rw [← Nat.cast_le (α := ℚ), onGrid_one, hvalue, mul_le_mul_iff_left₀ hfine] at hfloor
  rw [← Nat.cast_lt (α := ℚ), onGrid_one, hvalue, mul_lt_mul_iff_left₀ hfine] at hceil
  exact ⟨hfloor, hceil⟩

theorem value_mono (e : Int) {j k : Nat} (h : j ≤ k) :
    Decimal.value ⟨j, e⟩ * r.one ≤ Decimal.value ⟨k, e⟩ * r.one := by
  have hcast : (j : ℚ) ≤ k := by exact_mod_cast h
  unfold Decimal.value
  dsimp only
  gcongr

theorem Inside.neighbour (h : r.Inside) {k : Nat} (hk : r.Admits ⟨k, e⟩) :
    r.Admits ⟨r.below e, e⟩ ∧ r.distance ⟨r.below e, e⟩ ≤ r.distance ⟨k, e⟩ ∨
      r.Admits ⟨r.below e + 1, e⟩ ∧ r.distance ⟨r.below e + 1, e⟩ ≤ r.distance ⟨k, e⟩ := by
  obtain ⟨hfloor, hceil⟩ := h.below_le e
  unfold distance
  by_cases hle : k ≤ r.below e
  · have hmono := value_mono (r := r) e hle
    refine .inl ⟨h.admits_of_between hk (.inl ⟨hmono, hfloor⟩), ?_⟩
    rw [abs_of_nonpos (by linarith), abs_of_nonpos (by linarith)]
    linarith
  · have hmono := value_mono (r := r) e (Nat.lt_of_not_le hle)
    refine .inr ⟨h.admits_of_between hk (.inr ⟨hceil.le, hmono⟩), ?_⟩
    rw [abs_of_nonneg (by linarith), abs_of_nonneg (by linarith)]
    linarith

theorem Inside.nearer (h : r.Inside) (e : Int) :
    2 * ((r.onGrid e).value - r.below e * (r.onGrid e).one) < (r.onGrid e).one ↔
      r.distance ⟨r.below e, e⟩ < r.distance ⟨r.below e + 1, e⟩ := by
  have hfine : (0 : ℚ) < 10 ^ (-e).toNat := by positivity
  obtain ⟨hfloor, hceil⟩ := h.below_le e
  have hvalue : (((r.onGrid e).value : Nat) : ℚ) = r.value * 10 ^ (-e).toNat := by
    simp [onGrid]
  have hunit : (((r.onGrid e).one : Nat) : ℚ) = Decimal.value ⟨1, e⟩ * r.one *
      10 ^ (-e).toNat := by
    rw [← onGrid_one, Nat.one_mul]
  have hstep : Decimal.value ⟨r.below e + 1, e⟩ =
      Decimal.value ⟨r.below e, e⟩ + Decimal.value ⟨1, e⟩ := by
    simp only [Decimal.value]
    push_cast
    ring
  have hle : r.below e * (r.onGrid e).one ≤ (r.onGrid e).value := Nat.div_mul_le_self _ _
  rw [← Nat.cast_lt (α := ℚ), Nat.cast_mul, Nat.cast_sub hle, onGrid_one, hvalue, hunit,
    Nat.cast_ofNat, ← sub_mul, ← mul_assoc, mul_lt_mul_iff_left₀ hfine]
  unfold distance
  rw [abs_of_nonpos (by linarith), abs_of_nonneg (by linarith), hstep]
  constructor <;> intro hlt <;> linarith

/-- What is taken from the grid is one of the two neighbours of the value that reads back, and
none that reads back is nearer. Nothing is found only where nothing reads back. -/
theorem Inside.candidate?_spec (h : r.Inside) (e : Int) :
    (∃ k, r.candidate? e = some ⟨k, e⟩ ∧ k ≤ r.below e + 1 ∧ r.Admits ⟨k, e⟩ ∧
      ∀ j, r.Admits ⟨j, e⟩ → r.distance ⟨k, e⟩ ≤ r.distance ⟨j, e⟩) ∨
    r.candidate? e = none ∧ ∀ j, ¬r.Admits ⟨j, e⟩ := by
  have hbelow := onGrid_holds_iff (r := r) (r.below e) e
  have habove := onGrid_holds_iff (r := r) (r.below e + 1) e
  unfold candidate?
  dsimp only
  rw [← below]
  cases hlower : (r.onGrid e).holds (r.below e * (r.onGrid e).one) <;>
    cases hupper : (r.onGrid e).holds ((r.below e + 1) * (r.onGrid e).one) <;>
    rw [hlower] at hbelow <;> rw [hupper] at habove <;> dsimp only
  case false.false =>
    refine .inr ⟨rfl, fun j hj => ?_⟩
    rcases h.neighbour hj with ⟨hadmits, -⟩ | ⟨hadmits, -⟩
    · exact absurd (hbelow.mpr hadmits) nofun
    · exact absurd (habove.mpr hadmits) nofun
  case true.false =>
    refine .inl ⟨_, rfl, Nat.le_succ _, hbelow.mp rfl, fun j hj => ?_⟩
    rcases h.neighbour hj with ⟨-, hle⟩ | ⟨hadmits, -⟩
    · exact hle
    · exact absurd (habove.mpr hadmits) nofun
  case false.true =>
    refine .inl ⟨_, rfl, le_rfl, habove.mp rfl, fun j hj => ?_⟩
    rcases h.neighbour hj with ⟨hadmits, -⟩ | ⟨-, hle⟩
    · exact absurd (hbelow.mpr hadmits) nofun
    · exact hle
  case true.true =>
    split
    · next hnear =>
      have hnearer := ((h.nearer e).mp hnear).le
      refine .inl ⟨_, rfl, Nat.le_succ _, hbelow.mp rfl, fun j hj => ?_⟩
      exact (h.neighbour hj).elim And.right fun hle => hnearer.trans hle.2
    · next hfar =>
      have hnearer := not_lt.mp (mt (h.nearer e).mpr hfar)
      refine .inl ⟨_, rfl, le_rfl, habove.mp rfl, fun j hj => ?_⟩
      exact (h.neighbour hj).elim (fun hle => hnearer.trans hle.2) And.right

/-- The number of digits of a quotient that is not too small tells its power of ten, after as many
places as are needed to make it whole. -/
theorem length_toDigits_spec {v one : Nat} (places : Nat) (hone : 0 < one)
    (hlarge : one ≤ v * 10 ^ places) :
    let l := (Nat.toDigits 10 (v * Nat.pow 10 places / one)).length
    (10 : ℚ) ^ ((l : Int) - places - 1) * one ≤ v ∧ (v : ℚ) < 10 ^ ((l : Int) - places) * one := by
  intro l
  let q := v * 10 ^ places / one
  have hpos : 0 < l := Nat.length_toDigits_pos
  have hfloor : q * one ≤ v * 10 ^ places := Nat.div_mul_le_self _ _
  have hceil : v * 10 ^ places < (q + 1) * one := by
    rw [Nat.mul_comm (q + 1)]
    exact Nat.lt_mul_div_succ _ hone
  have hupper : q + 1 ≤ 10 ^ l := (Nat.length_toDigits_le_iff (by decide) hpos).mp le_rfl
  have hlower : 10 ^ (l - 1) ≤ q := by
    rcases Nat.eq_or_lt_of_le (Nat.succ_le_of_lt hpos) with hsingle | hmany
    · rw [← hsingle]
      exact Nat.div_pos hlarge hone
    · refine not_lt.mp fun hlt => ?_
      have hle := (Nat.length_toDigits_le_iff (by decide) (Nat.sub_pos_of_lt hmany)).mpr hlt
      change l ≤ l - 1 at hle
      omega
  have hscale (k : Int) : (10 : ℚ) ^ (k - places) * 10 ^ places = 10 ^ k := by
    rw [← zpow_natCast, ← zpow_add₀ (by norm_num), sub_add_cancel]
  have hten : (0 : ℚ) < 10 ^ places := by positivity
  constructor
  · have hchain : (10 : ℚ) ^ (l - 1) * one ≤ v * 10 ^ places := by
      exact_mod_cast (Nat.mul_le_mul_right _ hlower).trans hfloor
    have hpow : (10 : ℚ) ^ ((l : Int) - places - 1) * 10 ^ places = 10 ^ (l - 1) := by
      rw [sub_right_comm, ← Nat.cast_pred hpos, hscale, zpow_natCast]
    rwa [← mul_le_mul_iff_left₀ hten, mul_right_comm, hpow]
  · have hchain : (v : ℚ) * 10 ^ places < 10 ^ l * one := by
      exact_mod_cast hceil.trans_le (Nat.mul_le_mul_right _ hupper)
    rwa [← mul_lt_mul_iff_left₀ hten, mul_right_comm _ (one : ℚ), hscale, zpow_natCast]

/-- What seventeen digits ask for: an interval that is not too narrow, around a number that is not
too small. -/
structure Fine (r : Rounding) : Prop extends r.Inside where
  wide : r.value < (r.high - r.low) * 10 ^ 16
  large : ∀ places, 400 ≤ places → r.one ≤ r.value * 10 ^ places

theorem order_eq (r : Rounding) {places : Nat} (h : 400 = places) :
    r.order = ((Nat.toDigits 10 (r.value * Nat.pow 10 places / r.one)).length : Int) - places := by
  unfold order
  congr 1
  · congr 4
    rw [h]
  · exact congrArg Nat.cast h

theorem Fine.order_spec (h : r.Fine) :
    (10 : ℚ) ^ (r.order - 1) * r.one ≤ r.value ∧ (r.value : ℚ) < 10 ^ r.order * r.one := by
  obtain ⟨places, hplaces⟩ : ∃ places : Nat, 400 = places := ⟨400, rfl⟩
  rw [r.order_eq hplaces]
  exact length_toDigits_spec places h.one (h.large places hplaces.le)

theorem Fine.exists_candidate (h : r.Fine) : ∃ d, r.candidate? (r.order - 17) = some d := by
  let e := r.order - 17
  obtain ⟨hfirst, -⟩ := h.order_spec
  have hone : (0 : ℚ) < r.one := by exact_mod_cast h.one
  have hwide : (r.value : ℚ) < (r.high - r.low) * 10 ^ 16 := by
    have hle : r.low ≤ r.high := (h.low.trans h.high).le
    exact_mod_cast h.wide
  have hstep : (10 : ℚ) ^ e * r.one < r.high - r.low := by
    have hpow : (10 : ℚ) ^ (r.order - 1) = 10 ^ e * 10 ^ 16 := by
      rw [← zpow_natCast, ← zpow_add₀ (by norm_num)]
      congr 1
      omega
    rw [hpow] at hfirst
    nlinarith [hfirst]
  -- One of the two neighbours is less than half of the interval away on its side.
  obtain ⟨hfloor, hceil⟩ := h.below_le e
  have hnext : Decimal.value ⟨r.below e + 1, e⟩ * r.one =
      Decimal.value ⟨r.below e, e⟩ * r.one + 10 ^ e * r.one := by
    simp only [Decimal.value]
    push_cast
    ring
  have hlow : (r.low : ℚ) < r.value := by exact_mod_cast h.low
  have hhigh : (r.value : ℚ) < r.high := by exact_mod_cast h.high
  have hclosed : r.closed = true ∨ r.closed = false := by cases r.closed <;> simp
  rcases h.candidate?_spec e with ⟨k, hk, -⟩ | ⟨-, hnone⟩
  · exact ⟨_, hk⟩
  · exfalso
    by_cases hlt : (r.low : ℚ) < Decimal.value ⟨r.below e, e⟩ * r.one
    · exact hnone (r.below e) (hclosed.imp (⟨·, hlt.le, by linarith⟩) (⟨·, hlt, by linarith⟩))
    · have hlt' : Decimal.value ⟨r.below e + 1, e⟩ * r.one < r.high := by linarith
      exact hnone (r.below e + 1)
        (hclosed.imp (⟨·, by linarith, hlt'.le⟩) (⟨·, by linarith, hlt'⟩))

theorem Fine.shortest_found (h : r.Fine) : ∃ k < 17, ∃ d,
    r.candidate? (r.order - (k + 1 : Nat)) = some d ∧ r.shortest = d.trim 17 ∧
      ∀ j < k, r.candidate? (r.order - (j + 1 : Nat)) = none := by
  obtain ⟨last, hlast⟩ := h.exists_candidate
  have hsome : (List.range 17).findSome? (fun k : Nat => r.candidate? (r.order - (k + 1 : Nat))) ≠
      none := by
    rw [Ne, List.findSome?_eq_none_iff]
    intro hnone
    have hlast' : r.candidate? (r.order - (16 + 1 : Nat)) = some last := hlast
    rw [hnone 16 (by decide)] at hlast'
    cases hlast'
  obtain ⟨d, hd⟩ := Option.ne_none_iff_exists'.mp hsome
  obtain ⟨l₁, k, l₂, hsplit, hk, hbefore⟩ := List.findSome?_eq_some_iff.mp hd
  have hlength : l₁.length < 17 := by
    have hlength := congrArg List.length hsplit
    simp only [List.length_range, List.length_append, List.length_cons] at hlength
    omega
  have hfirst : l₁ = List.range l₁.length := by
    have htake := congrArg (List.take l₁.length) hsplit
    rwa [List.take_range, min_eq_left hlength.le, List.take_left, eq_comm] at htake
  have hk_eq : k = l₁.length := by
    have hget := congrArg (·[l₁.length]?) hsplit
    simpa [hlength] using hget.symm
  have hmem : ∀ j < k, j ∈ l₁ := by
    intro j hj
    rw [hfirst, List.mem_range, ← hk_eq]
    exact hj
  refine ⟨k, hk_eq ▸ hlength, d, hk, ?_, fun j hj => hbefore j (hmem j hj)⟩
  · unfold shortest
    dsimp only
    rw [hd]
    rfl

theorem Fine.below_lt (h : r.Fine) (k : Nat) :
    r.below (r.order - (k + 1 : Nat)) < 10 ^ (k + 1) := by
  obtain ⟨-, hlast⟩ := h.order_spec
  obtain ⟨hfloor, -⟩ := h.below_le (r.order - (k + 1 : Nat))
  have hone : (0 : ℚ) < r.one := by exact_mod_cast h.one
  have hpow : (10 : ℚ) ^ r.order = 10 ^ (k + 1) * 10 ^ (r.order - (k + 1 : Nat)) := by
    rw [← zpow_natCast, ← zpow_add₀ (by norm_num), add_sub_cancel]
  have hscale : (0 : ℚ) < 10 ^ (r.order - (k + 1 : Nat)) := by positivity
  have hlt := hfloor.trans_lt hlast
  rw [mul_lt_mul_iff_left₀ hone, Decimal.value, hpow, mul_lt_mul_iff_left₀ hscale] at hlt
  exact_mod_cast hlt

/-- For a decimal that reads back there is a number of the grid of its digits which reads back too
and is no farther: itself, or the power of ten between it and the value. -/
theorem Fine.exists_onGrid (h : r.Fine) {k : Nat} (hd : r.Admits d) (hdigits : d.digits ≤ k + 1) :
    ∃ c, r.Admits ⟨c, r.order - (k + 1 : Nat)⟩ ∧
      r.distance ⟨c, r.order - (k + 1 : Nat)⟩ ≤ r.distance d := by
  obtain ⟨hfirst, -⟩ := h.order_spec
  have hone : (0 : ℚ) < r.one := by exact_mod_cast h.one
  rcases le_or_gt ((10 : ℚ) ^ (r.order - 1)) d.value with hle | hgt
  · have hplace : r.order - (k + 1 : Nat) ≤ d.exponent := by
      have hlt : (10 : ℚ) ^ (r.order - 1) < 10 ^ (d.digits + d.exponent) := by
        refine hle.trans_lt ?_
        rw [zpow_add₀ (by norm_num), zpow_natCast, Decimal.value]
        refine mul_lt_mul_of_pos_right ?_ (by positivity)
        exact_mod_cast d.coefficient_lt
      have hexp := (zpow_lt_zpow_iff_right₀ (by norm_num)).mp hlt
      omega
    obtain ⟨c, hc⟩ := d.exists_value_eq hplace
    refine ⟨c, hd.congr hc, ?_⟩
    rw [distance, distance, hc]
  · have hpower : Decimal.value ⟨10 ^ k, r.order - (k + 1 : Nat)⟩ = 10 ^ (r.order - 1) := by
      rw [Decimal.value, Nat.cast_pow, Nat.cast_ofNat, ← zpow_natCast,
        ← zpow_add₀ (by norm_num)]
      dsimp only
      congr 1
      omega
    have hbelow := mul_lt_mul_of_pos_right hgt hone
    rw [← hpower] at hbelow hfirst
    refine ⟨10 ^ k, h.admits_of_between hd (.inl ⟨hbelow.le, hfirst⟩), ?_⟩
    rw [distance, distance, abs_of_nonpos (by linarith), abs_of_nonpos (by linarith)]
    linarith

theorem Fine.lt_digits (h : r.Fine) {k : Nat}
    (hnone : ∀ j < k, r.candidate? (r.order - (j + 1 : Nat)) = none) (hd : r.Admits d) :
    k < d.digits := by
  have hpos := d.digits_pos
  by_contra hle
  obtain ⟨c, hc, -⟩ := h.exists_onGrid (k := d.digits - 1) hd (by omega)
  rcases h.candidate?_spec (r.order - (d.digits - 1 + 1 : Nat)) with ⟨c', hc', -⟩ | ⟨-, hempty⟩
  · rw [hnone _ (by omega)] at hc'
    cases hc'
  · exact hempty c hc

theorem Fine.shortest_spec (h : r.Fine) : r.Admits r.shortest ∧ ∀ d, r.Admits d →
    r.shortest.digits ≤ d.digits ∧
      (d.digits = r.shortest.digits → r.distance r.shortest ≤ r.distance d) := by
  obtain ⟨k, hk, d', hfound, hshortest, hnone⟩ := h.shortest_found
  rcases h.candidate?_spec (r.order - (k + 1 : Nat)) with
    ⟨c, hc, hle, hadmits, hnearest⟩ | ⟨hempty, -⟩
  · obtain rfl : d' = _ := Option.some.inj (hfound.symm.trans hc)
    have hvalue : r.shortest.value = Decimal.value ⟨c, r.order - (k + 1 : Nat)⟩ := by
      rw [hshortest, Decimal.trim_value]
    have hdigits : r.shortest.digits ≤ k + 1 := by
      rw [hshortest]
      exact Decimal.digits_trim_le_succ hk (hle.trans (h.below_lt k))
    have hback := hadmits.congr hvalue
    refine ⟨hback, fun d hd => ⟨hdigits.trans (h.lt_digits hnone hd), fun heq => ?_⟩⟩
    obtain ⟨j, hj, hdistance⟩ := h.exists_onGrid hd (heq.le.trans hdigits)
    rw [distance, hvalue]
    exact (hnearest j hj).trans hdistance
  · rw [hfound] at hempty
    cases hempty

end Rounding

/-- The interval of a double reaches half a unit of its last place on either side, or a quarter
below a power of two. -/
theorem Binary.rounding_eq (b : Binary) (hm : 0 < b.mantissa) :
    (b.rounding.value : ℚ) = b.mantissa * 2 ^ b.exponent * b.rounding.one ∧
    (b.rounding.high : ℚ) = (b.mantissa + 1 / 2) * 2 ^ b.exponent * b.rounding.one ∧
    (b.rounding.low : ℚ) =
      (b.mantissa - if b.narrow then 1 / 4 else 1 / 2) * 2 ^ b.exponent * b.rounding.one := by
  have hscale : (2 : ℚ) ^ (b.exponent - 2).toNat = 2 ^ b.exponent * b.rounding.one / 4 := by
    have hpow : (2 : ℚ) ^ (b.exponent - 2).toNat =
        2 ^ (b.exponent - 2) * 2 ^ (2 - b.exponent).toNat := by
      rw [← zpow_natCast, ← zpow_natCast, ← zpow_add₀ (by norm_num)]
      congr 1
      omega
    rw [hpow, zpow_sub₀ (by norm_num), show b.rounding.one = 2 ^ (2 - b.exponent).toNat from rfl]
    push_cast
    ring
  have hsub : (((4 * b.mantissa - if b.narrow then 1 else 2 : Nat) : ℚ)) =
      4 * (b.mantissa - if b.narrow then 1 / 4 else 1 / 2) := by
    split <;> rw [Nat.cast_sub (by omega)] <;> push_cast <;> ring
  refine ⟨?_, ?_, ?_⟩
  · rw [show b.rounding.value = 4 * b.mantissa * 2 ^ (b.exponent - 2).toNat from rfl]
    push_cast
    rw [hscale]
    ring
  · rw [show b.rounding.high = (4 * b.mantissa + 2) * 2 ^ (b.exponent - 2).toNat from rfl]
    push_cast
    rw [hscale]
    ring
  · rw [show b.rounding.low = (4 * b.mantissa - if b.narrow then 1 else 2) *
      2 ^ (b.exponent - 2).toNat from rfl, Nat.cast_mul, hsub]
    push_cast
    rw [hscale]
    ring

/-- What the bits of a double that is not zero leave of all binary numbers. -/
structure Binary.Double (b : Binary) : Prop where
  pos : 0 < b.mantissa
  lt : b.mantissa < 2 ^ 53
  narrow : b.narrow = true → b.mantissa = 2 ^ 52
  exponent : -1074 ≤ b.exponent

theorem Binary.double_ofBits {bits : Nat} (hpos : 0 < bits) (hlt : bits < 2 ^ 63) :
    (ofBits bits).Double := by
  have hfraction : bits % 2 ^ 52 < 2 ^ 52 := Nat.mod_lt _ (by decide)
  have hsplit := Nat.div_add_mod bits (2 ^ 52)
  have hfield : bits / 2 ^ 52 % 2 ^ 11 = bits / 2 ^ 52 :=
    Nat.mod_eq_of_lt (Nat.div_lt_of_lt_mul hlt)
  unfold ofBits
  simp only [Nat.pow_eq, hfield]
  split
  · next hzero =>
    rw [hzero] at hsplit
    exact ⟨by dsimp only; omega, by dsimp only; omega, nofun, le_rfl⟩
  · refine ⟨by dsimp only; omega, by dsimp only; omega, fun hnarrow => ?_, by dsimp only; omega⟩
    simp only [Bool.and_eq_true, decide_eq_true_eq] at hnarrow
    dsimp only
    omega

theorem two_pow_le_ten_pow {j k : Nat} (h : j ≤ 3 * k) : 2 ^ j ≤ 10 ^ k := by
  calc 2 ^ j ≤ 2 ^ (3 * k) := Nat.pow_le_pow_right (by decide) h
    _ = 8 ^ k := Nat.pow_mul 2 3 k
    _ ≤ 10 ^ k := Nat.pow_le_pow_left (by decide) k

theorem Binary.Double.fine {b : Binary} (h : b.Double) : b.rounding.Fine := by
  have hpos := h.pos
  have hlt := h.lt
  have hup : 0 < 2 ^ (b.exponent - 2).toNat := Nat.pow_pos (by decide)
  have hgap : (if b.narrow then 1 else 2) ≤ 4 * b.mantissa ∧
      0 < (if b.narrow then 1 else 2) := by
    split <;> omega
  refine ⟨⟨?_, ?_, Nat.pow_pos (by decide)⟩, ?_, fun places hplaces => ?_⟩
  · exact Nat.mul_lt_mul_of_pos_right (Nat.sub_lt (by omega) hgap.2) hup
  · exact Nat.mul_lt_mul_of_pos_right (by omega) hup
  · change 4 * b.mantissa * _ < ((4 * b.mantissa + 2) * _ - (4 * b.mantissa - _) * _) * 10 ^ 16
    rw [← Nat.sub_mul, Nat.mul_right_comm _ _ (10 ^ 16)]
    refine Nat.mul_lt_mul_of_pos_right ?_ hup
    split
    · next hnarrow =>
      rw [h.narrow hnarrow]
      decide
    · omega
  · have hone : b.rounding.one ≤ 10 ^ places := by
      refine two_pow_le_ten_pow ?_
      have hexponent := h.exponent
      omega
    have hvalue : 0 < b.rounding.value := Nat.mul_pos (by omega) hup
    exact hone.trans (Nat.le_mul_of_pos_left _ hvalue)

theorem Binary.shortest_ofBits {bits : Nat} (hpos : 0 < bits) (hlt : bits < 2 ^ 63) :
    let r := (ofBits bits).rounding
    r.Admits r.shortest ∧ ∀ d, r.Admits d → r.shortest.digits ≤ d.digits ∧
      (d.digits = r.shortest.digits → r.distance r.shortest ≤ r.distance d) :=
  (double_ofBits hpos hlt).fine.shortest_spec

end LeastSquares
