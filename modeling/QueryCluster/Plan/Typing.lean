import QueryCluster.Expr.Eval
import QueryCluster.Plan.Basic

/-!
# Schemas of plans

The schema of every stage follows from the schema below it, or the plan is ill typed.
-/
namespace QueryCluster

inductive TypeFault where
  | schema (fault : SchemaFault)
  | undefinedAggregate (func : AggregateFunction) (argument : Option DataType) (label : String)
  deriving DecidableEq, Repr

namespace Aggregate

/-- Counts and integer sums are 64-bit integers, float sums and averages are doubles, and the
least and the greatest value have the type of their column. -/
def typeOver? (func : AggregateFunction) (argument : Option DataType) : Option DataType :=
  match func, argument with
  | .count, _ => some .int64
  | .avg, some t => if t.isNumeric then some .float64 else none
  | .sum, some t => if t.isFloat then some .float64 else if t.isNumeric then some .int64 else none
  | .min, some t => some t
  | .max, some t => some t
  | _, none => none

def argumentType (a : Aggregate) (s : Schema) : Except TypeFault (Option DataType) :=
  match a.column with
  | some c => match s.typeOf c with
    | .ok t => .ok (some t)
    | .error fault => .error (.schema fault)
  | none => .ok none

def typeIn (a : Aggregate) (s : Schema) : Except TypeFault DataType := do
  let argument ← a.argumentType s
  match typeOver? a.func argument with
  | some t => return t
  | none => throw (.undefinedAggregate a.func argument a.label)

end Aggregate

namespace Stage

def checkAll (s : Schema) (es : List Expr) : Except TypeFault Unit :=
  es.forM fun e => discard ((e.typeOf s).mapError .schema)

/-- The schema of the rows a stage gives for rows of schema `s`. -/
def schemaOver (s : Schema) : Stage → Except TypeFault Schema
  | filter predicate => do
    checkAll s [predicate]
    return s
  | project exprs => do
    let columns ← exprs.mapM fun e =>
      return { name := e.name, type := ← (e.expr.typeOf s).mapError TypeFault.schema }
    return { columns }
  | group keys aggregates => do
    let keyFields ← keys.mapM fun k =>
      return { name := k, type := ← (s.typeOf k).mapError TypeFault.schema }
    let aggregateFields ← aggregates.mapM fun a => return { name := a.label, type := ← a.typeIn s }
    return { columns := keyFields ++ aggregateFields }
  | sort items => do
    checkAll s (items.map (·.expr))
    return s
  | limit _ => return s

end Stage

def TableScan.outputSchema (t : TableScan) : Except TypeFault Schema := do
  Stage.checkAll t.columns t.filters
  return t.columns

def Plan.schemaOf (scan : TableScan) : List Stage → Except TypeFault Schema
  | [] => scan.outputSchema
  | stage :: below => do
    let s ← schemaOf scan below
    stage.schemaOver s

def Plan.schema (p : Plan) : Except TypeFault Schema := schemaOf p.scan p.stages

end QueryCluster
