import Mathlib.Algebra.Ring.Int.Defs
import Mathlib.Algebra.Ring.Nat
import Mathlib.Data.List.Dedup
import QueryCluster.Operator.Group
import QueryCluster.Operator.Selection
import QueryCluster.Plan.Typing
import QueryCluster.Proofs.Stream.Calls
import QueryCluster.Tables.Basic

/-!
# What a plan means

The rows of a plan, said without executors, splits or streams: all rows of the table that pass the
filters, put through one stage after another. Sums of integers are exact and fail only if the total
is no 64-bit integer. Order carries no meaning but for floating sums, and a limit keeps the rows
that come first.
-/
namespace QueryCluster

/-- The rows that pass a test, up to the first failure. -/
def keepRows (test : Row → Except OperatorError Bool) : List Row → Except OperatorError (List Row)
  | [] => .ok []
  | r :: rows => do
    let keep ← test r
    let rest ← keepRows test rows
    return if keep then r :: rest else rest

namespace TableScan

def name (t : TableScan) : TableName := ⟨t.catalog, t.schema, t.table⟩

def meaning (tables : TableStore) (t : TableScan) : Except OperatorError (List Row) := do
  let partitions ← (List.range t.partitions.toNat).mapM fun p =>
    tables.read t.name p t.columns.withoutKeys
  keepRows (fun r => keepsAll t.columns.withoutKeys r.values t.filters) (rowsOf partitions.flatten)

end TableScan

namespace Aggregate

/-- The first of two values unless the second stands further on a side of the order. -/
def further (side : Ordering) (m : Option Value) (v : Value) : Option Value :=
  match m with
  | some w => if v.natural w = side then some v else some w
  | none => some v

/-- The least value, or the greatest, by the side of the order it stands on. -/
def extremeOf (side : Ordering) (vs : List Value) : Option Value := vs.foldl (further side) none

def wholeOf (v : Value) : Except ArithmeticFault Int :=
  match v.toInt? with
  | some x => .ok x
  | none => .error (.sumOver v)

/-- The exact sum, which must be a 64-bit integer. -/
def wholeSumOf (vs : List Value) : Except ArithmeticFault Value := do
  let xs ← vs.mapM wholeOf
  if xs = [] then return .null
  else if Int64.minValue.toInt ≤ xs.sum ∧ xs.sum ≤ Int64.maxValue.toInt then
    return .int64 (Int64.ofInt xs.sum)
  else throw .overflow

def realOf (fault : Value → ArithmeticFault) (v : Value) : Except ArithmeticFault Double :=
  match v.toDouble? with
  | some x => .ok x
  | none => .error (fault v)

def realSumOf (vs : List Value) : Except ArithmeticFault Value := do
  let xs ← vs.mapM (realOf .sumOver)
  return if xs = [] then .null else .float64 (xs.foldl Double.add Double.zero)

def averageOf (vs : List Value) : Except ArithmeticFault Value := do
  let xs ← vs.mapM (realOf .averageOver)
  return if xs = [] then .null
    else .float64 ((xs.foldl Double.add Double.zero).div (Double.ofInt xs.length))

/-- The values of a column that are not null. -/
def present (column : Nat) (rows : List Row) : List Value :=
  (rows.map (Grouping.valueAt · column)).filter fun v => !v.isNull

/-- An aggregate over the rows of a group; only a count goes without a column. -/
def valueOver (func : AggregateFunction) (result : DataType) (argument : Option Nat) (rows : List Row) :
    Except ArithmeticFault Value :=
  match func, argument with
  | .count, none => .ok (.int64 (Int64.ofNat rows.length))
  | _, none => .ok .null
  | .count, some c => .ok (.int64 (Int64.ofNat (present c rows).length))
  | .sum, some c => if result.isFloat then realSumOf (present c rows) else wholeSumOf (present c rows)
  | .min, some c => .ok ((extremeOf .lt (present c rows)).getD .null)
  | .max, some c => .ok ((extremeOf .gt (present c rows)).getD .null)
  | .avg, some c => averageOf (present c rows)

end Aggregate

/-- An aggregate whose column and type are known. -/
structure AggregateSlot where
  func : AggregateFunction
  result : DataType
  argument : Option Nat
  deriving DecidableEq, Repr

def Aggregate.slot (s : Schema) (a : Aggregate) : Except OperatorError AggregateSlot := do
  let argument ← Grouping.argumentColumn s a
  let result ← (a.typeIn s).mapError OperatorError.ofType
  return ⟨a.func, result, argument⟩

/-- The row of a group: its keys, as its first row has them, and its aggregates. -/
def groupRow (keyColumns : List Nat) (slots : List AggregateSlot) (rows : List Row) :
    Except OperatorError Row := do
  let results ← (slots.mapM fun a => Aggregate.valueOver a.func a.result a.argument rows).mapError
    OperatorError.arithmetic
  return { values := keyColumns.map (fun c => (rows.head?.map (Grouping.valueAt · c)).getD .null) ++
    results }

def groupKey (keyColumns : List Nat) (r : Row) : Bytes :=
  keyBytes (keyColumns.map (Grouping.valueAt r))

/-- Rows with the same key bytes form a group. Without keys there is one group, if only of no
rows. -/
def groupsOf (keyColumns : List Nat) (rows : List Row) : List (List Row) :=
  if keyColumns = [] then [rows]
  else (rows.map (groupKey keyColumns)).dedup.map fun k =>
    rows.filter fun r => groupKey keyColumns r = k

namespace Stage

/-- The rows that a stage makes of rows under a schema. -/
def meaning (s : Schema) (rows : List Row) : Stage → Except OperatorError (List Row)
  | filter predicate => keepRows (fun r => keepsAll s r.values [predicate]) rows
  | project exprs => rows.mapM (projectRow s exprs)
  | group keys aggregates => do
    let keyColumns ← keys.mapM (Grouping.keyColumn s)
    let slots ← aggregates.mapM (Aggregate.slot s)
    (groupsOf keyColumns rows).mapM (groupRow keyColumns slots)
  | sort _ => .ok rows
  | limit count => .ok (rows.take count.toNat)

end Stage

/-- The rows of some stages over a scan. -/
def Plan.meaningOf (tables : TableStore) (scan : TableScan) :
    List Stage → Except OperatorError (List Row)
  | [] => scan.meaning tables
  | stage :: below => do
    let s ← (schemaOf scan below).mapError OperatorError.ofType
    let rows ← meaningOf tables scan below
    stage.meaning s.withoutKeys rows

def Plan.meaning (tables : TableStore) (plan : Plan) : Except OperatorError (List Row) :=
  meaningOf tables plan.scan plan.stages

end QueryCluster
