/-!
# Reading whole numbers

A text is read from the left. The first character that is no digit, or the first digit that takes
the number out of range, decides how reading fails.
-/
namespace QueryCluster.Number

inductive IntegerFault where
  | empty
  | invalidDigit
  | tooLarge
  | tooSmall
  deriving DecidableEq, Repr

def IntegerFault.message : IntegerFault → String
  | .empty => "cannot parse integer from empty string"
  | .invalidDigit => "invalid digit found in string"
  | .tooLarge => "number too large to fit in target type"
  | .tooSmall => "number too small to fit in target type"

/-- Continues `acc` with the digits of `cs`, staying at or below `limit`. -/
def readDigits (limit : Nat) (beyond : IntegerFault) : Nat → List Char → Except IntegerFault Nat
  | acc, [] => .ok acc
  | acc, c :: cs =>
    if c.isDigit then
      let n := acc * 10 + (c.toNat - 48)
      if n ≤ limit then readDigits limit beyond n cs else .error beyond
    else .error .invalidDigit

/-- Unsigned numbers may carry a plus sign. -/
def readUnsigned (limit : Nat) (cs : List Char) : Except IntegerFault Nat :=
  match cs with
  | [] => .error .empty
  | '+' :: [] => .error .invalidDigit
  | '+' :: cs => readDigits limit .tooLarge 0 cs
  | cs => readDigits limit .tooLarge 0 cs

/-- Signed numbers in `-(limit + 1) ..= limit`. -/
def readSigned (limit : Nat) (cs : List Char) : Except IntegerFault Int :=
  match cs with
  | [] => .error .empty
  | '-' :: [] => .error .invalidDigit
  | '-' :: cs => (readDigits (limit + 1) .tooSmall 0 cs).map fun n => -(n : Int)
  | '+' :: [] => .error .invalidDigit
  | '+' :: cs => (readDigits limit .tooLarge 0 cs).map Int.ofNat
  | cs => (readDigits limit .tooLarge 0 cs).map Int.ofNat

def int32Limit : Nat := 0x7fffffff
def int64Limit : Nat := 0x7fffffffffffffff
def word64Limit : Nat := 0xffffffffffffffff
def word16Limit : Nat := 0xffff

end QueryCluster.Number
