import QueryCluster.Pipeline.Reader
import QueryCluster.Plan.Error
import QueryCluster.Value.Reader

/-!
# From pipeline documents to plans

The first step, and no other, scans a table; every later step becomes a stage on top. The whole plan
must be well typed.
-/
namespace QueryCluster

def AggregateFunction.read (text : String) : Except CompileFault AggregateFunction :=
  let word := Text.lowerAscii (Text.trim text)
  match AggregateFunction.ofWord? word with
  | some f => .ok f
  | none => .error (.unknownAggregate word)

namespace Pipeline

/-- Splits a text where the pattern first occurs in it, whatever the case of its letters. -/
def splitFirst (pattern : List Char) : List Char → Option (List Char × List Char)
  | [] => none
  | c :: cs =>
    if ((c :: cs).take pattern.length).map Char.toLower = pattern then
      some ([], (c :: cs).drop pattern.length)
    else (splitFirst pattern cs).map fun (a, b) => (c :: a, b)

/-- An output column is written as an expression, or as an expression, the word `as` and a name. -/
def readProjection (text : String) : Except PlanError NamedExpr :=
  let (expr, name) := match splitFirst " as ".toList text.toList with
    | some (a, b) => (String.ofList a, String.ofList (Text.trimChars b))
    | none => (text, Text.trim text)
  ((Expr.read expr).mapError .expr).map fun e => ⟨e, name⟩

/-- A star stands for no column. Without a label, the function and its column name the result. -/
def AggregateEntry.compile (a : AggregateEntry) : Except PlanError Aggregate := do
  let func ← (AggregateFunction.read a.func).mapError PlanError.compile
  let column := a.column.filter (· != "*")
  if column.isNone && func != .count then throw (.compile (.needsColumn a.func))
  let word := Text.lowerAscii a.func
  return {
    func, column
    label := a.label.getD (match column with
      | some c => word ++ "_" ++ c
      | none => word) }

def ColumnEntry.compile (c : ColumnEntry) : Except PlanError Field :=
  ((DataType.read c.type).mapError .base).map fun type => { name := c.name, type }

def ScanEntry.compile (catalog schema : String) (e : ScanEntry) : Except PlanError TableScan := do
  if e.partitions = 0 then throw (.compile (.noPartitions e.table))
  if e.columns.isEmpty then throw (.compile .noColumns)
  let columns ← e.columns.mapM ColumnEntry.compile
  let filters ← e.filter.toList.mapM fun f => (Expr.read f).mapError PlanError.expr
  return {
    catalog := e.catalog.getD catalog
    schema := e.schema.getD schema
    table := e.table
    columns := { columns }
    partitions := e.partitions
    filters }

def Step.compile : Step → Except PlanError Stage
  | scan _ => .error (.compile .manyScans)
  | filter expr => ((Expr.read expr).mapError .expr).map .filter
  | project columns => (columns.mapM readProjection).map .project
  | groupBy keys aggs => (aggs.mapM AggregateEntry.compile).map (.group keys)
  | orderBy items =>
    (items.mapM fun i => (SortItem.read i).mapError PlanError.expr).map .sort
  | limit count => .ok (.limit count)

def compileSteps (catalog schema : String) : List Step → Except PlanError Plan
  | [] => .error (.compile .emptyPipeline)
  | .scan e :: steps => do
    let scan ← e.compile catalog schema
    let stages ← steps.mapM Step.compile
    return { stages := stages.reverse, scan }
  | step :: _ => .error (.compile (.scanNotFirst step))

/-- The plan of a document, with names for the catalog and the schema that a scan leaves out. -/
def compile (catalog schema text : String) : Except PlanError Plan := do
  match read? text with
  | none => throw .document
  | some steps =>
    let plan ← compileSteps catalog schema steps
    match plan.schema with
    | .ok _ => return plan
    | .error fault => throw (.compile (.illTyped fault))

end Pipeline
end QueryCluster
