namespace LeastSquares

/-- `coefficient · 10 ^ exponent`, the coefficient without a zero at its end. -/
structure Decimal where
  coefficient : Nat
  exponent : Int
deriving DecidableEq

/-- A positive double `mantissa · 2 ^ exponent`. -/
structure Binary where
  mantissa : Nat
  exponent : Int
  /-- The gap below is half of the one above. -/
  narrow : Bool

/-- What a finite double that is not zero holds, without its sign. -/
def Binary.ofBits (bits : Nat) : Binary :=
  let fraction : Nat := bits % Nat.pow 2 52
  let e : Nat := bits / Nat.pow 2 52 % Nat.pow 2 11
  if e = 0 then ⟨fraction, -1074, false⟩
  else ⟨fraction + Nat.pow 2 52, (e : Int) - 1075, fraction = 0 && 1 < e⟩

/-- The points `low`, `value` and `high` in one unit: all numbers between `low` and `high` round
to `value`, and the ends do too if `closed`. `one` is the number one. -/
structure Rounding where
  low : Nat
  value : Nat
  high : Nat
  one : Nat
  closed : Bool

def Binary.rounding (b : Binary) : Rounding :=
  let up := Nat.pow 2 (b.exponent - 2).toNat
  { low := (4 * b.mantissa - if b.narrow then 1 else 2) * up
    value := 4 * b.mantissa * up
    high := (4 * b.mantissa + 2) * up
    one := Nat.pow 2 (2 - b.exponent).toNat
    closed := b.mantissa % 2 = 0 }

namespace Rounding

/-- The same points, with `10 ^ e` as the new unit. -/
def onGrid (r : Rounding) (e : Int) : Rounding :=
  let fine := Nat.pow 10 (-e).toNat
  { r with
    low := r.low * fine
    value := r.value * fine
    high := r.high * fine
    one := r.one * Nat.pow 10 e.toNat }

def holds (r : Rounding) (x : Nat) : Bool :=
  if r.closed then r.low ≤ x && x ≤ r.high else r.low < x && x < r.high

/-- Of the two neighbours on the grid the nearer one that rounds to the value, the upper one
where they are equally near. -/
def candidate? (r : Rounding) (e : Int) : Option Decimal :=
  let r := r.onGrid e
  let n := r.value / r.one
  match r.holds (n * r.one), r.holds ((n + 1) * r.one) with
  | true, true => some ⟨if 2 * (r.value - n * r.one) < r.one then n else n + 1, e⟩
  | true, false => some ⟨n, e⟩
  | false, true => some ⟨n + 1, e⟩
  | false, false => none

/-- How many digits stand before the point; four hundred places reach the first digit of
every double. -/
def order (r : Rounding) : Int :=
  ((Nat.toDigits 10 (r.value * Nat.pow 10 400 / r.one)).length : Int) - 400

end Rounding

def Decimal.trim : Nat → Decimal → Decimal
  | 0, d => d
  | k + 1, d => if d.coefficient % 10 = 0 then trim k ⟨d.coefficient / 10, d.exponent + 1⟩ else d

/-- The shortest decimal that rounds to a number, and the nearest of those. Seventeen digits
are always enough. -/
def Rounding.shortest (r : Rounding) : Decimal :=
  let found := (List.range 17).findSome? fun (k : Nat) => r.candidate? (r.order - (k + 1 : Nat))
  (found.getD ⟨0, 0⟩).trim 17

end LeastSquares
