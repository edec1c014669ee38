import QueryCluster.Location
import QueryCluster.Plan.Basic

/-!
# Operator graphs

A plan runs as a graph of operators, one on each executor. A node names the executors it reads from
and those it writes to; a node that writes to none is the root and keeps its rows.
-/
namespace QueryCluster

/-- How a node spreads its rows over its outputs. -/
inductive Partitioning where
  /-- All rows go to the only output. -/
  | single
  /-- All rows go to the partner one stage on. -/
  | oneToOne
  /-- Splits go to the outputs in turn. -/
  | roundRobin
  /-- The keys of a row decide its output. -/
  | hash (keys : List String)
  deriving DecidableEq, Repr, Inhabited

inductive OperatorType where
  | scan
  | filter
  | project
  | group
  | localSort
  | merge
  | limit
  | union
  deriving DecidableEq, Repr, Inhabited

namespace OperatorType

def name : OperatorType → String
  | scan => "Scan"
  | filter => "Filter"
  | project => "Projection"
  | group => "GroupBy"
  | localSort => "OrderByLocal"
  | merge => "OrderBy"
  | limit => "Limit"
  | union => "Union"

def all : List OperatorType := [scan, filter, project, group, localSort, merge, limit, union]

def ofName? (s : String) : Option OperatorType := all.find? fun t => t.name == s

end OperatorType

/-- Some partitions of a stored table, read under a schema and filtered. -/
structure PartitionScan where
  catalog : String
  schema : String
  table : String
  partitions : List UInt64
  columns : Schema
  filters : List Expr
  deriving DecidableEq, Repr, Inhabited

inductive Operator where
  | scan (part : PartitionScan)
  | filter (predicate : Expr)
  | project (exprs : List NamedExpr)
  /-- The worker that owns the only group of a grouping without keys writes it for no rows too. -/
  | group (keys : List String) (aggregates : List Aggregate) (emptyRow : Bool)
  | localSort (items : List SortItem)
  | merge (items : List SortItem)
  | limit (count : UInt64)
  | union
  deriving DecidableEq, Repr, Inhabited

def Operator.type : Operator → OperatorType
  | scan _ => .scan
  | filter _ => .filter
  | project _ => .project
  | group _ _ _ => .group
  | localSort _ => .localSort
  | merge _ => .merge
  | limit _ => .limit
  | union => .union

structure OperatorNode where
  location : Location
  inputs : List Location := []
  outputs : List Location := []
  partitioning : Partitioning := .single
  operator : Operator
  deriving DecidableEq, Repr, Inhabited

def OperatorNode.isRoot (n : OperatorNode) : Bool := n.outputs.isEmpty

structure Graph where
  /-- Every node stands behind the nodes it reads from. -/
  nodes : List OperatorNode
  root : OperatorNode
  deriving DecidableEq, Repr

end QueryCluster
