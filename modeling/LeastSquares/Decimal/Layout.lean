import LeastSquares.Decimal.Shortest

namespace LeastSquares

/-- How the digits of a number are set out. -/
structure Layout where
  /-- Whole numbers end in a point and a zero. -/
  wholePoint : Bool
  /-- The powers of ten of a first digit that needs no exponent. -/
  positional : Int → Bool

namespace Layout

def plain : Layout := ⟨false, fun _ => true⟩

def scientific : Layout := ⟨false, fun _ => false⟩

def listed : Layout := ⟨true, fun e => -4 ≤ e && e < 16⟩

def zeros (k : Int) : List Char := List.replicate k.toNat '0'

/-- The first `point` digits stand before the point. -/
def positionalDigits (l : Layout) (digits : List Char) (point : Int) : List Char :=
  if point ≤ 0 then '0' :: '.' :: zeros (-point) ++ digits
  else if digits.length ≤ point then
    digits ++ zeros (point - digits.length) ++ if l.wholePoint then ['.', '0'] else []
  else digits.take point.toNat ++ '.' :: digits.drop point.toNat

def withExponent (digits : List Char) (e : Int) : List Char :=
  let fraction := if digits.length ≤ 1 then [] else '.' :: digits.drop 1
  digits.take 1 ++ fraction ++ 'e' :: (toString e).toList

def decimal (l : Layout) (d : Decimal) : List Char :=
  let digits := Nat.toDigits 10 d.coefficient
  let e := d.exponent + digits.length - 1
  if l.positional e then l.positionalDigits digits (e + 1) else withExponent digits e

def zero (l : Layout) : List Char :=
  if l.positional 0 then if l.wholePoint then ['0', '.', '0'] else ['0'] else ['0', 'e', '0']

/-- The fewest digits that read back as the same number. -/
def write (l : Layout) (x : Float) : String :=
  if x.isNaN then "NaN"
  else
    let bits := x.toBits.toNat
    let size := bits % Nat.pow 2 63
    let text :=
      if size = 0 then l.zero
      else if 2047 * Nat.pow 2 52 ≤ size then ['i', 'n', 'f']
      else l.decimal (Binary.ofBits size).rounding.shortest
    String.ofList (if Nat.pow 2 63 ≤ bits then '-' :: text else text)

end Layout

end LeastSquares
