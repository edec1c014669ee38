import QueryCluster.Expr.Eval
import QueryCluster.Operator.Emission

/-!
# Operators that take rows one by one

Filters, projections, limits and unions.
-/
namespace QueryCluster

/-- Whether all predicates keep a row; those behind the first that does not are not asked. -/
def keepsAll (s : Schema) (row : List Value) : List Expr → Except OperatorError Bool
  | [] => .ok true
  | e :: es => do
    if ← (e.keeps s row).mapError .ofExpr then keepsAll s row es else return false

/-- A row whose absent keys store null. -/
def Row.settled (r : Row) (keys : Nat) : Row :=
  Row.withKeys r.values ((List.range keys).map r.key?)

def keptRows (s : Schema) (predicates : List Expr) : List Row → Except OperatorError (List Row)
  | [] => .ok []
  | r :: rs => do
    let keep ← keepsAll s r.values predicates
    let rest ← keptRows s predicates rs
    return if keep then r.settled s.keys.length :: rest else rest

/-- The rows of a split that every predicate keeps, with their keys. -/
def Split.filter (s : Split) (predicates : List Expr) : Except OperatorError Split := do
  return { s with rows := ← keptRows s.schema predicates s.rows }

def unlessEmpty (s : Split) : List Split := if s.isEmpty then [] else [s]

def filterProcess (predicate : Expr) (schema : Schema) : Except OperatorError (Process Unit) := do
  discard ((predicate.typeOf schema).mapError OperatorError.ofSchema)
  return {
    schema
    start := ()
    step := fun _ s => do return ((), unlessEmpty (← s.filter [predicate])) }

/-- Absent values become null. -/
def projectRow (schema : Schema) (exprs : List NamedExpr) (r : Row) : Except OperatorError Row := do
  let values ← exprs.mapM fun e => (e.expr.eval schema r.values).mapError OperatorError.ofExpr
  return { values := values.map (·.getD .null) }

def projectProcess (exprs : List NamedExpr) (schema : Schema) :
    Except OperatorError (Process Unit) := do
  let columns ← exprs.mapM fun e =>
    return { name := e.name, type := ← (e.expr.typeOf schema).mapError OperatorError.ofSchema }
  let output : Schema := { columns }
  return {
    schema := output
    start := ()
    step := fun _ s => do
      return ((), [{ schema := output, rows := ← s.rows.mapM (projectRow schema exprs) }]) }

/-- The state is the number of rows still wanted. All of the input is read. -/
def limitProcess (count : Nat) (schema : Schema) : Except OperatorError (Process Nat) :=
  .ok {
    schema
    start := count
    step := fun wanted s =>
      .ok (wanted - s.rowCount, if wanted = 0 then [] else unlessEmpty (s.slice 0 wanted)) }

def unionProcess (schema : Schema) : Except OperatorError (Process Unit) :=
  .ok { schema, start := (), step := fun _ s => .ok ((), [s]) }

end QueryCluster
