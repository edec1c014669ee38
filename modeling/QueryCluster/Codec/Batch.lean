import QueryCluster.Codec.Value
import QueryCluster.Split.Basic

/-!
# Batches in bytes

A batch travels column by column, then its keys and their flags, without schema or directions.
-/
namespace QueryCluster

open Codec

structure Batch where
  columns : List (List Value)
  keys : List (List Value)
  flags : List (List Bool)
  deriving DecidableEq, Repr

namespace Batch

def ofSplit (s : Split) : Batch := ⟨s.columns, s.keyColumns, s.flagColumns⟩

def toSplit (b : Batch) (schema : Schema) : Except ShapeFault Split :=
  Split.ofColumns schema b.columns b.keys b.flags

def encode (b : Batch) : Bytes :=
  encodeList (encodeList Value.encode) b.columns ++ encodeList (encodeList Value.encode) b.keys ++
    encodeList (encodeList encodeFlag) b.flags

def decode : Decoder Batch := do
  let columns ← decodeList (decodeList Value.decode)
  let keys ← decodeList (decodeList Value.decode)
  let flags ← decodeList (decodeList decodeFlag)
  return { columns, keys, flags }

end Batch
end QueryCluster
