import QueryCluster.Codec.Plan
import QueryCluster.Graph.Basic

/-!
# Operator nodes in bytes
-/
namespace QueryCluster

open Codec

namespace Location

def encode (l : Location) : Bytes :=
  encodeText l.name ++ encodeText l.host ++ encodeWord 2 l.port.toNat

def decode : Decoder Location := do
  let name ← decodeText
  let host ← decodeText
  return { name, host, port := UInt16.ofNat (← decodeWord 2) }

end Location

namespace Partitioning

def encode : Partitioning → Bytes
  | single => encodeTag 0
  | oneToOne => encodeTag 1
  | roundRobin => encodeTag 2
  | hash keys => encodeTag 3 ++ encodeList encodeText keys

def decode : Decoder Partitioning := do
  match ← decodeTag with
  | 0 => return single
  | 1 => return oneToOne
  | 2 => return roundRobin
  | 3 => return hash (← decodeList decodeText)
  | _ => failure

end Partitioning

namespace PartitionScan

def encode (s : PartitionScan) : Bytes :=
  encodeText s.catalog ++ encodeText s.schema ++ encodeText s.table ++
    encodeList (fun n => encodeWord 8 n.toNat) s.partitions ++ s.columns.encode ++
    encodeList Expr.encode s.filters

def decode : Decoder PartitionScan := do
  let catalog ← decodeText
  let schema ← decodeText
  let table ← decodeText
  let partitions ← decodeList do return UInt64.ofNat (← decodeWord 8)
  let columns ← Schema.decode
  let filters ← decodeList Expr.decode
  return { catalog, schema, table, partitions, columns, filters }

end PartitionScan

namespace Operator

def encode : Operator → Bytes
  | scan part => encodeTag 0 ++ part.encode
  | filter predicate => encodeTag 1 ++ predicate.encode
  | project exprs => encodeTag 2 ++ encodeList NamedExpr.encode exprs
  | group keys aggregates emptyRow =>
    encodeTag 3 ++ encodeList encodeText keys ++ encodeList Aggregate.encode aggregates ++
      encodeFlag emptyRow
  | localSort items => encodeTag 4 ++ encodeList SortItem.encode items
  | merge items => encodeTag 5 ++ encodeList SortItem.encode items
  | limit count => encodeTag 6 ++ encodeWord 8 count.toNat
  | union => encodeTag 7

def decode : Decoder Operator := do
  match ← decodeTag with
  | 0 => return scan (← PartitionScan.decode)
  | 1 => return filter (← Expr.decode)
  | 2 => return project (← decodeList NamedExpr.decode)
  | 3 =>
    let keys ← decodeList decodeText
    let aggregates ← decodeList Aggregate.decode
    return group keys aggregates (← decodeFlag)
  | 4 => return localSort (← decodeList SortItem.decode)
  | 5 => return merge (← decodeList SortItem.decode)
  | 6 => return limit (UInt64.ofNat (← decodeWord 8))
  | 7 => return union
  | _ => failure

end Operator

namespace OperatorNode

def encode (n : OperatorNode) : Bytes :=
  n.location.encode ++ encodeList Location.encode n.inputs ++ encodeList Location.encode n.outputs ++
    n.partitioning.encode ++ n.operator.encode

def decode : Decoder OperatorNode := do
  let location ← Location.decode
  let inputs ← decodeList Location.decode
  let outputs ← decodeList Location.decode
  let partitioning ← Partitioning.decode
  return { location, inputs, outputs, partitioning, operator := ← Operator.decode }

end OperatorNode
end QueryCluster
