import QueryCluster.Operator.Emission
import QueryCluster.Stream.Writer
import QueryCluster.Value.Key

/-!
# Hash aggregation

Rows with the same key bytes form one group, and groups are written in the order of their first
rows. Nulls are passed over by every aggregate. Without keys there is one group at most; the worker
told so writes it for an empty input too.
-/
namespace QueryCluster

inductive Accumulator where
  | count (n : Nat)
  | wholeSum (sum : Option Int)
  | realSum (sum : Option Double)
  | least (v : Option Value)
  | greatest (v : Option Value)
  | average (sum : Double) (n : Nat)
  deriving DecidableEq, Repr

namespace Accumulator

def start (func : AggregateFunction) (result : DataType) : Accumulator :=
  match func with
  | .count => count 0
  | .sum => if result.isFloat then realSum none else wholeSum none
  | .min => least none
  | .max => greatest none
  | .avg => average Double.zero 0

/-- A running sum that must stay a 64-bit integer. -/
def addWhole (sum : Option Int) (x : Int) : Except ArithmeticFault Int :=
  let next := sum.getD 0 + x
  if Int64.minValue.toInt ≤ next ∧ next ≤ Int64.maxValue.toInt then .ok next else .error .overflow

/-- Takes in a value that is not null. -/
def add (v : Value) : Accumulator → Except ArithmeticFault Accumulator
  | count n => .ok (count (n + 1))
  | wholeSum sum => match v.toInt? with
    | some x => (addWhole sum x).map fun next => wholeSum (some next)
    | none => .error (.sumOver v)
  | realSum sum => match v.toDouble? with
    | some x => .ok (realSum (some ((sum.getD Double.zero).add x)))
    | none => .error (.sumOver v)
  | least m => .ok (least (match m with
    | some w => if v.natural w = .lt then some v else some w
    | none => some v))
  | greatest m => .ok (greatest (match m with
    | some w => if v.natural w = .gt then some v else some w
    | none => some v))
  | average sum n => match v.toDouble? with
    | some x => .ok (average (sum.add x) (n + 1))
    | none => .error (.averageOver v)

/-- Takes in a row's argument; an aggregate over whole rows has none. -/
def update (argument : Option Value) (a : Accumulator) : Except ArithmeticFault Accumulator :=
  match argument with
  | some v => if v.isNull then .ok a else a.add v
  | none => match a with
    | count n => .ok (count (n + 1))
    | a => .ok a

def result : Accumulator → Value
  | count n => .int64 (Int64.ofNat n)
  | wholeSum sum => (sum.map fun i => Value.int64 (Int64.ofInt i)).getD .null
  | realSum sum => (sum.map Value.float64).getD .null
  | least v => v.getD .null
  | greatest v => v.getD .null
  | average sum n => if n = 0 then .null else .float64 (sum.div (Double.ofInt n))

end Accumulator

structure Group where
  /-- The key bytes that all rows of the group share. -/
  key : Bytes
  /-- Key values of the first row. -/
  values : List Value
  accumulators : List Accumulator
  deriving DecidableEq, Repr

def Group.row (g : Group) : Row := { values := g.values ++ g.accumulators.map Accumulator.result }

/-- A grouping under a known input schema. -/
structure Grouping where
  keyColumns : List Nat
  /-- The argument column of each aggregate. -/
  arguments : List (Option Nat)
  fresh : List Accumulator
  output : Schema

namespace Grouping

def keyColumn (schema : Schema) (name : String) : Except OperatorError Nat :=
  match schema.indexOf? name with
  | some i => .ok i
  | none => .error (.mismatch (.groupKey name))

def argumentColumn (schema : Schema) (a : Aggregate) : Except OperatorError (Option Nat) :=
  match a.column with
  | none => .ok none
  | some name => match schema.indexOf? name with
    | some i => .ok (some i)
    | none => .error (.mismatch (.aggregateColumn name))

def resolve (keys : List String) (aggregates : List Aggregate) (schema : Schema) :
    Except OperatorError Grouping := do
  let keyColumns ← keys.mapM (keyColumn schema)
  let arguments ← aggregates.mapM (argumentColumn schema)
  let types ← aggregates.mapM fun a => (a.typeIn schema).mapError OperatorError.ofType
  let keyFields := keys.zip (keyColumns.filterMap (schema.columns[·]?))
  return {
    keyColumns, arguments
    fresh := aggregates.zipWith (fun a t => Accumulator.start a.func t) types
    output := { columns := keyFields.map (fun (name, f) => ⟨name, f.type⟩) ++
      aggregates.zipWith (fun a t => ⟨a.label, t⟩) types } }

def valueAt (r : Row) (column : Nat) : Value := r.values[column]?.getD .null

def keyOf (g : Grouping) (r : Row) : List Value := g.keyColumns.map (valueAt r)

def updateAll (r : Row) : List Accumulator → List (Option Nat) →
    Except ArithmeticFault (List Accumulator)
  | a :: as, c :: cs => do
    let a ← a.update (c.map (valueAt r))
    return a :: (← updateAll r as cs)
  | as, _ => .ok as

/-- Takes a row with its key bytes into its group. -/
def insertRow (g : Grouping) (key : Bytes) (r : Row) :
    List Group → Except ArithmeticFault (List Group)
  | [] => do return [⟨key, g.keyOf r, ← updateAll r g.fresh g.arguments⟩]
  | h :: rest =>
    if h.key = key then do
      return { h with accumulators := ← updateAll r h.accumulators g.arguments } :: rest
    else do return h :: (← insertRow g key r rest)

def addRow (g : Grouping) (groups : List Group) (r : Row) : Except ArithmeticFault (List Group) :=
  g.insertRow (keyBytes (g.keyOf r)) r groups

/-- Groups as they are written: the only group of a grouping without keys may stand for no rows. -/
def closed (g : Grouping) (emptyRow : Bool) (groups : List Group) : List Group :=
  if groups.isEmpty && g.keyColumns.isEmpty && emptyRow then [⟨[], [], g.fresh⟩] else groups

end Grouping

def groupProcess (keys : List String) (aggregates : List Aggregate) (emptyRow : Bool)
    (batchRows : Nat) (schema : Schema) : Except OperatorError (Process (List Group)) := do
  let g ← Grouping.resolve keys aggregates schema
  return {
    schema := g.output
    start := []
    step := fun groups s => do
      return (← (s.rows.foldlM g.addRow groups).mapError OperatorError.arithmetic, [])
    finish := fun groups =>
      let rows := (g.closed emptyRow groups).map Group.row
      StreamWriter.batches { schema := g.output, rows } (max batchRows 1) }

end QueryCluster
