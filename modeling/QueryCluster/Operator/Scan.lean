import QueryCluster.Graph.Basic
import QueryCluster.Operator.Selection
import QueryCluster.Tables.Basic

/-!
# Scans

A scan reads its partitions in order and keeps the rows that pass every filter.
-/
namespace QueryCluster

/-- What a partition gives, split by split, up to the first failure: the rows read and the splits
kept. -/
def filterSplits (filters : List Expr) : List Split → Nat × List Split × Option OperatorError
  | [] => (0, [], none)
  | s :: rest =>
    match if filters.isEmpty then .ok s else s.filter filters with
    | .error e => (s.rowCount, [], some e)
    | .ok kept =>
      let (count, splits, fault) := filterSplits filters rest
      (s.rowCount + count, unlessEmpty kept ++ splits, fault)

def scanPartitions (tables : TableStore) (scan : PartitionScan) (schema : Schema) :
    List UInt64 → Nat × List Split × Option OperatorError
  | [] => (0, [], none)
  | p :: ps =>
    match tables.read ⟨scan.catalog, scan.schema, scan.table⟩ p.toNat schema with
    | .error e => (0, [], some e)
    | .ok stored =>
      match filterSplits scan.filters stored with
      | (count, splits, some e) => (count, splits, some e)
      | (count, splits, none) =>
        let (more, rest, fault) := scanPartitions tables scan schema ps
        (count + more, splits ++ rest, fault)

def runScan (tables : TableStore) (scan : PartitionScan) (inputs : List Feed) : Emission :=
  if !inputs.isEmpty then .failed (.execution (.scanInputs inputs.length))
  else
    let schema := scan.columns.withoutKeys
    let (count, splits, fault) := scanPartitions tables scan schema scan.partitions
    let outcome := match fault with
      | some e => .error e
      | none => .ok ⟨count, countRows splits⟩
    { schema := some schema, splits, outcome }

end QueryCluster
