import QueryCluster.Value.Basic

/-!
# The natural order of values

Null comes first; truth values, texts and byte strings compare among themselves, integers as
integers, and any other two numbers as double precision numbers, NaN last. Values of different
kinds rank by kind.
-/
namespace QueryCluster

inductive Direction where
  | ascending
  | descending
  deriving DecidableEq, Repr, Inhabited

def Direction.name : Direction → String
  | ascending => "Asc"
  | descending => "Desc"

def Direction.apply : Direction → Ordering → Ordering
  | ascending, o => o
  | descending, o => o.swap

namespace Value

def kindRank : Value → Nat
  | null => 0
  | bool _ => 1
  | int32 _ => 2
  | int64 _ => 3
  | float32 _ => 4
  | float64 _ => 5
  | text _ => 6
  | bytes _ => 7

def compareBytes : Bytes → Bytes → Ordering
  | [], [] => .eq
  | [], _ :: _ => .lt
  | _ :: _, [] => .gt
  | a :: as, b :: bs => (compare a.toNat b.toNat).then (compareBytes as bs)

/-- Texts compare by their UTF-8 bytes, which is the order of their code points. -/
def compareText (a b : String) : Ordering := compareBytes (Bytes.ofString a) (Bytes.ofString b)

def compareNumeric (a b : Value) : Ordering :=
  match a.toInt?, b.toInt? with
  | some x, some y => compare x y
  | _, _ => match a.toDouble?, b.toDouble? with
    | some x, some y => x.compareRank y
    | _, _ => compare a.kindRank b.kindRank

def natural : Value → Value → Ordering
  | null, null => .eq
  | null, _ => .lt
  | _, null => .gt
  | bool x, bool y => compare x.toNat y.toNat
  | text x, text y => compareText x y
  | bytes x, bytes y => compareBytes x y
  | a, b => compareNumeric a b

end Value
end QueryCluster
