import QueryCluster.Number.Binary

/-!
# The fewest digits that read back

The text of a finite magnitude uses the fewest decimal digits that round to it. On each decimal
grid, from the coarsest on, the two neighbours of the number are tried; the first grid with a
neighbour inside the rounding interval wins, the nearer neighbour is taken, and a tie goes up.
-/
namespace QueryCluster.Number

/-- The number `0.d₁d₂… * 10 ^ point`. -/
structure Digits where
  digits : List Char
  point : Int
  deriving DecidableEq, Repr

namespace BinaryFormat

/-- The rounding interval of a positive magnitude, in units of `2 ^ power`: the number, its lower
and upper end, and whether the ends belong to it. -/
structure Interval where
  value : Nat
  lower : Nat
  upper : Nat
  power : Int
  closed : Bool

def interval (f : BinaryFormat) (magnitude : Nat) : Interval :=
  let (m, q) := f.split magnitude
  let narrow := magnitude % 1 <<< f.fractionBits = 0 ∧ 1 <<< f.fractionBits < magnitude
  { value := 4 * m
    lower := if narrow then 4 * m - 1 else 4 * m - 2
    upper := 4 * m + 2
    power := q - 2
    closed := m % 2 = 0 }

/-- The neighbour on the grid of `10 ^ place` that lies in the interval and is nearest. -/
def Interval.onGrid? (i : Interval) (place : Int) : Option Nat :=
  let num := (if place < 0 then powerOfTen (-place).toNat else 1) <<< i.power.toNat
  let den := (if place < 0 then 1 else powerOfTen place.toNat) <<< (-i.power).toNat
  let below := i.value * num / den
  let above := below + 1
  let belowIn := if i.closed then i.lower * num ≤ below * den else i.lower * num < below * den
  let aboveIn := if i.closed then above * den ≤ i.upper * num else above * den < i.upper * num
  let upNearer : Bool := den ≤ 2 * (i.value * num % den)
  if i.value * num % den = 0 then some below
  else if aboveIn && (upNearer || !belowIn) then some above
  else if belowIn then some below
  else none

/-- The decimal place just above the leading digit of the number. -/
def Interval.leadingPlace (i : Interval) : Int :=
  let whole := if i.power < 0 then i.value >>> (-i.power).toNat else i.value <<< i.power.toNat
  if whole ≠ 0 then (Nat.toDigits 10 whole).length
  else
    let inverse := (1 <<< (-i.power).toNat - 1) / i.value
    1 - (Nat.toDigits 10 inverse).length

def Interval.shortestFrom (i : Interval) (top : Int) : (fuel : Nat) → (count : Int) → Nat × Int
  | 0, count => ((i.onGrid? (top - count)).getD 0, top - count)
  | fuel + 1, count => match i.onGrid? (top - count) with
    | some n => if n = 0 then shortestFrom i top fuel (count + 1) else (n, top - count)
    | none => shortestFrom i top fuel (count + 1)

def stripZeros (ds : List Char) : List Char := (ds.reverse.dropWhile (· == '0')).reverse

/-- No double needs more than seventeen digits. -/
def shortest (f : BinaryFormat) (magnitude : Nat) : Digits :=
  let i := f.interval magnitude
  let (n, place) := i.shortestFrom i.leadingPlace 17 1
  let ds := Nat.toDigits 10 n
  ⟨stripZeros ds, place + ds.length⟩

end BinaryFormat

namespace Digits

/-- Positional text with at least `places` digits after the point. -/
def positional (d : Digits) (places : Nat) : List Char :=
  let n := d.digits.length
  let whole := if d.point ≤ 0 then ['0']
    else d.digits.take d.point.toNat ++ List.replicate (d.point.toNat - n) '0'
  let fraction := if d.point ≤ 0 then List.replicate (-d.point).toNat '0' ++ d.digits
    else d.digits.drop d.point.toNat
  let fraction := fraction ++ List.replicate (places - fraction.length) '0'
  if fraction.isEmpty then whole else whole ++ '.' :: fraction

def intChars (i : Int) : List Char :=
  if i < 0 then '-' :: Nat.toDigits 10 i.natAbs else Nat.toDigits 10 i.natAbs

/-- One digit before the point and a power of ten. -/
def scientific (d : Digits) : List Char :=
  let exponent := 'e' :: intChars (d.point - 1)
  match d.digits with
  | [] => '0' :: exponent
  | [c] => c :: exponent
  | c :: cs => c :: '.' :: cs ++ exponent

end Digits

namespace BinaryFormat

def finiteText (f : BinaryFormat) (bits : Nat) (render : Digits → List Char) (zero : List Char) :
    String :=
  if f.isNaN bits then "NaN"
  else
    let body := if f.isInfinite bits then "inf".toList
      else if f.magnitude bits = 0 then zero
      else render (f.shortest (f.magnitude bits))
    String.ofList (if f.isNegative bits then '-' :: body else body)

/-- Plain text: always positional, no point for whole numbers. -/
def plainText (f : BinaryFormat) (bits : Nat) : String :=
  f.finiteText bits (·.positional 0) ['0']

/-- Literal text: whole numbers keep one place, and magnitudes below `10 ^ -4` or from `10 ^ 16`
on are written with a power of ten. -/
def literalText (f : BinaryFormat) (bits : Nat) : String :=
  f.finiteText bits
    (fun d => if d.point < -3 ∨ 16 < d.point then d.scientific else d.positional 1) ['0', '.', '0']

end BinaryFormat
end QueryCluster.Number
