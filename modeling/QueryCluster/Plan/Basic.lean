import QueryCluster.Expr.SortItem
import QueryCluster.Schema.Basic

/-!
# Query plans

A plan reads one table and sends its rows through a list of stages, written outermost first.
-/
namespace QueryCluster

inductive AggregateFunction where
  | count
  | sum
  | min
  | max
  | avg
  deriving DecidableEq, Repr, Inhabited

namespace AggregateFunction

def name : AggregateFunction → String
  | count => "Count"
  | sum => "Sum"
  | min => "Min"
  | max => "Max"
  | avg => "Avg"

def all : List AggregateFunction := [count, sum, min, max, avg]

def ofName? (s : String) : Option AggregateFunction := all.find? fun f => f.name == s

/-- The words for a function, in lower case. -/
def ofWord? : String → Option AggregateFunction
  | "count" => some count
  | "sum" => some sum
  | "min" => some min
  | "max" => some max
  | "avg" | "mean" => some avg
  | _ => none

end AggregateFunction

/-- A function over one column of a group; only a count may go without a column. -/
structure Aggregate where
  func : AggregateFunction
  column : Option String
  label : String
  deriving DecidableEq, Repr, Inhabited

structure NamedExpr where
  expr : Expr
  name : String
  deriving DecidableEq, Repr, Inhabited

/-- A stored table, the schema it is read under and how many partitions it has. -/
structure TableScan where
  catalog : String
  schema : String
  table : String
  columns : Schema
  partitions : UInt64
  filters : List Expr
  deriving DecidableEq, Repr, Inhabited

inductive Stage where
  | filter (predicate : Expr)
  | project (exprs : List NamedExpr)
  | group (keys : List String) (aggregates : List Aggregate)
  | sort (items : List SortItem)
  | limit (count : UInt64)
  deriving DecidableEq, Repr, Inhabited

def Stage.name : Stage → String
  | filter _ => "filter"
  | project _ => "projection"
  | group _ _ => "group_by"
  | sort _ => "order_by"
  | limit _ => "limit"

structure Plan where
  stages : List Stage
  scan : TableScan
  deriving DecidableEq, Repr, Inhabited

/-- Names of the plan's nodes, outermost first. -/
def Plan.names (p : Plan) : List String := p.stages.map Stage.name ++ ["scan"]

end QueryCluster
