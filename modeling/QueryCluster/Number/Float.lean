import QueryCluster.Number.Shortest

/-!
# Single and double precision numbers as bit patterns

Numbers are their bit patterns, so equality is identity of bits and a NaN keeps its payload.
`rank` sorts the numbers as the real line does, with both zeros in one place and every NaN above
infinity.
-/
namespace QueryCluster

structure Single where
  bits : UInt32
  deriving DecidableEq, Repr

structure Double where
  bits : UInt64
  deriving DecidableEq, Repr

namespace Double

open Number (BinaryFormat)

def ofPattern (n : Nat) : Double := ⟨UInt64.ofNat n⟩
def zero : Double := ⟨0⟩
def isNaN (x : Double) : Bool := BinaryFormat.double.isNaN x.bits.toNat

/-- Where the number stands in the order of all numbers. -/
def rank (x : Double) : Int :=
  let bits := x.bits.toNat
  if x.isNaN then UInt64.size
  else if BinaryFormat.double.isNegative bits then -(BinaryFormat.double.magnitude bits : Int)
  else BinaryFormat.double.magnitude bits

def compareRank (x y : Double) : Ordering := compare x.rank y.rank

def ofInt (i : Int) : Double := ofPattern (BinaryFormat.double.ofInt i)

def quiet (x : Double) : Double := ⟨x.bits ||| 0x8000000000000⟩

/-- What an invalid operation gives. -/
def indefinite : Double := ⟨0xfff8000000000000⟩

/-- A NaN operand is passed on, the left one first. -/
def arith (op : Float → Float → Float) (x y : Double) : Double :=
  if x.isNaN then x.quiet
  else if y.isNaN then y.quiet
  else
    let z : Double := ⟨(op (Float.ofBits x.bits) (Float.ofBits y.bits)).toBits⟩
    if z.isNaN then indefinite else z

def add (x y : Double) : Double := arith (· + ·) x y
def div (x y : Double) : Double := arith (· / ·) x y

def read (cs : List Char) : Except BinaryFormat.ReadFault Double :=
  (BinaryFormat.double.read cs).map ofPattern

def plainText (x : Double) : String := BinaryFormat.double.plainText x.bits.toNat
def literalText (x : Double) : String := BinaryFormat.double.literalText x.bits.toNat

end Double

namespace Single

open Number (BinaryFormat)

def ofPattern (n : Nat) : Single := ⟨UInt32.ofNat n⟩
def isNaN (x : Single) : Bool := BinaryFormat.single.isNaN x.bits.toNat

/-- The same number in double precision; a NaN keeps sign and payload and becomes quiet. -/
def widen (x : Single) : Double :=
  let bits := x.bits.toNat
  let magnitude := BinaryFormat.single.magnitude bits
  let wide :=
    if x.isNaN then
      Nat.lor (BinaryFormat.double.infinity + (magnitude % 1 <<< 23) <<< 29) BinaryFormat.double.quietBit
    else if BinaryFormat.single.isInfinite bits then BinaryFormat.double.infinity
    else
      let (m, q) := BinaryFormat.single.split magnitude
      if q < 0 then BinaryFormat.double.roundMagnitude m (1 <<< (-q).toNat)
      else BinaryFormat.double.roundMagnitude (m <<< q.toNat) 1
  Double.ofPattern (BinaryFormat.double.withSign (BinaryFormat.single.isNegative bits) wide)

def read (cs : List Char) : Except BinaryFormat.ReadFault Single :=
  (BinaryFormat.single.read cs).map ofPattern

def plainText (x : Single) : String := BinaryFormat.single.plainText x.bits.toNat
def literalText (x : Single) : String := BinaryFormat.single.literalText x.bits.toNat

end Single
end QueryCluster
