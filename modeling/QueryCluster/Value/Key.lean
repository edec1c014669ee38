import QueryCluster.Checksum.Blake3
import QueryCluster.Value.Basic

/-!
# Key bytes and buckets

The bytes by which rows are grouped and routed. Both integer widths share one form and both float
widths another; texts and byte strings carry their length, so that a tuple of keys can be read
back apart.
-/
namespace QueryCluster

namespace Value

def keyBytes : Value → Bytes
  | null => [0]
  | bool b => [1, if b then 1 else 0]
  | int32 i => 2 :: Bytes.ofNatLE 8 i.toInt64.toUInt64.toNat
  | int64 i => 2 :: Bytes.ofNatLE 8 i.toUInt64.toNat
  | float32 x => 4 :: Bytes.ofNatLE 8 x.widen.bits.toNat
  | float64 x => 4 :: Bytes.ofNatLE 8 x.bits.toNat
  | text s => 6 :: Bytes.ofNatLE 8 (Bytes.ofString s).length ++ Bytes.ofString s
  | bytes bs => 7 :: Bytes.ofNatLE 8 bs.length ++ bs

end Value

def keyBytes (key : List Value) : Bytes := key.flatMap Value.keyBytes

/-!
## Hash partitioning

A key tuple belongs to the bucket that its digest names. Tuples with the same key bytes share a
bucket whatever the number of buckets.
-/

def bucketOf (key : Bytes) (buckets : Nat) : Nat :=
  if buckets ≤ 1 then 0
  else Bytes.toNatLE ((Blake3.digest key).take 8) % buckets

def hashPartition (key : List Value) (buckets : Nat) : Nat := bucketOf (keyBytes key) buckets

theorem hashPartition_lt (key : List Value) {n : Nat} (h : 0 < n) : hashPartition key n < n := by
  unfold hashPartition bucketOf
  split
  · exact h
  · exact Nat.mod_lt _ h

end QueryCluster
