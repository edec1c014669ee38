/-!
# Decimal literals and binary formats

A decimal literal is digits with an optional point and an optional exponent. It is read exactly,
as a coefficient and a power of ten.
-/
namespace QueryCluster.Number

/-- The number `coefficient * 10 ^ exponent`. -/
structure Decimal where
  coefficient : Nat
  exponent : Int
  deriving DecidableEq, Repr

def powerOfTen (n : Nat) : Nat := Nat.pow 10 n

namespace Decimal

def digitsValue (cs : List Char) : Nat := cs.foldl (fun n c => n * 10 + (c.toNat - 48)) 0

/-- The exponent part: nothing, or `e`, an optional sign and at least one digit. -/
def readExponent (cs : List Char) : Option Int :=
  match cs with
  | [] => some 0
  | e :: cs =>
    if e = 'e' ∨ e = 'E' then
      let (negative, ds) := match cs with
        | '-' :: ds => (true, ds)
        | '+' :: ds => (false, ds)
        | ds => (false, ds)
      if ds.isEmpty || !ds.all Char.isDigit then none
      else if negative then some (-(digitsValue ds : Int)) else some (digitsValue ds)
    else none

/-- Digits stand before or after the point, or on both sides of it. -/
def read? (cs : List Char) : Option Decimal :=
  let whole := cs.takeWhile Char.isDigit
  let (fraction, tail) := match cs.dropWhile Char.isDigit with
    | '.' :: rest => (rest.takeWhile Char.isDigit, rest.dropWhile Char.isDigit)
    | rest => ([], rest)
  if whole.isEmpty && fraction.isEmpty then none
  else (readExponent tail).map fun e => ⟨digitsValue (whole ++ fraction), e - fraction.length⟩

end Decimal

/-!
## Binary floating-point formats

A format has a sign bit, an exponent field and a fraction field. Patterns are natural numbers;
all rounding is exact, to the nearest pattern with ties going to the even one.
-/

/-- `precision` counts the leading bit, which is not stored. -/
structure BinaryFormat where
  precision : Nat
  exponentBits : Nat

namespace BinaryFormat

def single : BinaryFormat := ⟨24, 8⟩
def double : BinaryFormat := ⟨53, 11⟩

def fractionBits (f : BinaryFormat) : Nat := f.precision - 1
def signBit (f : BinaryFormat) : Nat := 1 <<< (f.exponentBits + f.fractionBits)
def infinity (f : BinaryFormat) : Nat := (1 <<< f.exponentBits - 1) <<< f.fractionBits
def quietBit (f : BinaryFormat) : Nat := 1 <<< (f.fractionBits - 1)
def quietNaN (f : BinaryFormat) : Nat := f.infinity + f.quietBit

/-- The power of two that the last fraction bit of the smallest numbers stands for. -/
def minPower (f : BinaryFormat) : Int := 3 - (1 <<< (f.exponentBits - 1) : Nat) - f.precision

def isNegative (f : BinaryFormat) (bits : Nat) : Bool := f.signBit ≤ bits
def magnitude (f : BinaryFormat) (bits : Nat) : Nat := bits % f.signBit
def isNaN (f : BinaryFormat) (bits : Nat) : Bool := f.infinity < f.magnitude bits
def isInfinite (f : BinaryFormat) (bits : Nat) : Bool := f.magnitude bits == f.infinity
def withSign (f : BinaryFormat) (negative : Bool) (magnitude : Nat) : Nat :=
  if negative then f.signBit + magnitude else magnitude

/-- A finite magnitude is `m * 2 ^ q`; gives `(m, q)`. -/
def split (f : BinaryFormat) (magnitude : Nat) : Nat × Int :=
  let fraction := magnitude % 1 <<< f.fractionBits
  let exponent := magnitude >>> f.fractionBits
  if exponent = 0 then (fraction, f.minPower)
  else (fraction + 1 <<< f.fractionBits, f.minPower + exponent - 1)

/-- The quotient rounded to a whole number, a half going to the even neighbour. -/
def roundQuotient (num den : Nat) : Nat :=
  let q := num / den
  let twice := 2 * (num % den)
  if den < twice ∨ (twice = den ∧ q % 2 = 1) then q + 1 else q

/-- The largest `e` with `2 ^ e ≤ num / den`, for positive arguments. -/
def quotientLog2 (num den : Nat) : Int :=
  let e : Int := (num.log2 : Int) - den.log2
  let reaches := if e < 0 then den ≤ num <<< (-e).toNat else den <<< e.toNat ≤ num
  if reaches then e else e - 1

/-- Magnitude of the pattern nearest to `num / den`. -/
def roundMagnitude (f : BinaryFormat) (num den : Nat) : Nat :=
  if num = 0 then 0
  else
    let q := max (quotientLog2 num den - f.fractionBits) f.minPower
    let m := if q < 0 then roundQuotient (num <<< (-q).toNat) den
      else roundQuotient num (den <<< q.toNat)
    min ((q - f.minPower).toNat <<< f.fractionBits + m) f.infinity

def ofInt (f : BinaryFormat) (i : Int) : Nat :=
  f.withSign (i < 0) (f.roundMagnitude i.natAbs 1)

/-- Beyond 400 decimal places on either side every format has reached infinity or zero. -/
def ofDecimal (f : BinaryFormat) (d : Decimal) : Nat :=
  let place : Int := (Nat.toDigits 10 d.coefficient).length + d.exponent
  if d.coefficient = 0 then 0
  else if 400 < place then f.infinity
  else if place < -400 then 0
  else if d.exponent < 0 then f.roundMagnitude d.coefficient (powerOfTen (-d.exponent).toNat)
  else f.roundMagnitude (d.coefficient * powerOfTen d.exponent.toNat) 1

inductive ReadFault where
  | empty
  | invalid
  deriving DecidableEq, Repr

def ReadFault.message : ReadFault → String
  | .empty => "cannot parse float from empty string"
  | .invalid => "invalid float literal"

/-- Reads a decimal literal or one of the words for infinity and not-a-number, in any letter
case, with an optional sign. -/
def read (f : BinaryFormat) (cs : List Char) : Except ReadFault Nat :=
  let (negative, rest) := match cs with
    | '-' :: rest => (true, rest)
    | '+' :: rest => (false, rest)
    | rest => (false, rest)
  if cs.isEmpty then .error .empty
  else match Decimal.read? rest with
    | some d => .ok (f.withSign negative (f.ofDecimal d))
    | none =>
      let word := String.ofList (rest.map Char.toLower)
      if word == "inf" || word == "infinity" then .ok (f.withSign negative f.infinity)
      else if word == "nan" then .ok (f.withSign negative f.quietNaN)
      else .error .invalid

end BinaryFormat
end QueryCluster.Number
