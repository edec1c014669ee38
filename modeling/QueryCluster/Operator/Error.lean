import QueryCluster.Plan.Error
import QueryCluster.Split.Error
import QueryCluster.Value.Basic

/-!
# Faults of running operators
-/
namespace QueryCluster

structure TableName where
  catalog : String
  schema : String
  table : String
  deriving DecidableEq, Repr, Inhabited

def TableName.display (t : TableName) : String := t.catalog ++ "." ++ t.schema ++ "." ++ t.table

/-- What a file system refuses. -/
inductive FileFault where
  | missing
  | notDirectory
  | isDirectory
  deriving DecidableEq, Repr

def FileFault.message : FileFault → String
  | .missing => "No such file or directory (os error 2)"
  | .notDirectory => "Not a directory (os error 20)"
  | .isDirectory => "Is a directory (os error 21)"

/-- Why a text is no comma-separated table. -/
inductive CsvFault where
  | width
  | encoding
  deriving DecidableEq, Repr

def CsvFault.message : CsvFault → String
  | .width => "CSV error: record of another width"
  | .encoding => "CSV parse error: field is not text"

inductive TableFault where
  | noTable (name : TableName)
  | noPartition (table : String) (count asked : Nat)
  | unopened (path : String) (fault : FileFault)
  | unlisted (path : String) (fault : FileFault)
  | malformed (path : String) (fault : CsvFault)
  deriving DecidableEq, Repr

def TableFault.message : TableFault → String
  | .noTable name => "no table " ++ name.display
  | .noPartition table count asked =>
    table ++ " has " ++ toString count ++ " partitions, asked for " ++ toString asked
  | .unopened path fault => "open " ++ path ++ ": " ++ fault.message
  | .unlisted path fault => path ++ ": " ++ fault.message
  | .malformed path fault => path ++ ": " ++ fault.message

inductive MismatchFault where
  | inputs (first other : Schema)
  | sortedInputs (first other : Schema)
  | sortKeys (expected carried : Nat)
  | groupKey (name : String)
  | aggregateColumn (name : String)
  | partitionKey (name : String)
  | storedColumn (name : String)
  | fileColumn (path name : String)
  | base (error : BaseError)
  deriving DecidableEq, Repr

def MismatchFault.message : MismatchFault → String
  | .inputs first other =>
    "inputs disagree on schema: " ++ first.literal ++ " vs " ++ other.literal
  | .sortedInputs first other =>
    "sorted inputs disagree on schema: " ++ first.literal ++ " vs " ++ other.literal
  | .sortKeys expected carried =>
    "merge expects " ++ toString expected ++ " sort keys, input carries " ++ toString carried
  | .groupKey name => "group key '" ++ name ++ "' not in input"
  | .aggregateColumn name => "aggregate column '" ++ name ++ "' not in input"
  | .partitionKey name => "partition key '" ++ name ++ "' not in output"
  | .storedColumn name => "stored table has no column '" ++ name ++ "'"
  | .fileColumn path name => path ++ " has no column '" ++ name ++ "'"
  | .base error => error.message

inductive ArithmeticFault where
  | sumOver (v : Value)
  | averageOver (v : Value)
  | overflow
  deriving DecidableEq, Repr

def ArithmeticFault.message : ArithmeticFault → String
  | .sumOver v => "sum over " ++ v.literal
  | .averageOver v => "avg over " ++ v.literal
  | .overflow => "integer overflow in sum"

inductive ExecutionFault where
  | noInput
  | noMergeInput
  | scanInputs (count : Nat)
  | rowsBeforeSchema
  | outputFinished (output : Nat)
  deriving DecidableEq, Repr

def ExecutionFault.message : ExecutionFault → String
  | .noInput => "operator needs at least one input"
  | .noMergeInput => "merge needs at least one input"
  | .scanInputs count => "scan takes no inputs, got " ++ toString count
  | .rowsBeforeSchema => "rows before metadata"
  | .outputFinished output => "output " ++ toString output ++ " already finished"

inductive OperatorError where
  | split (error : SplitError)
  | expr (error : PlanError)
  | table (fault : TableFault)
  | mismatch (fault : MismatchFault)
  | arithmetic (fault : ArithmeticFault)
  | sortLimit (limit : Nat)
  | execution (fault : ExecutionFault)
  deriving DecidableEq, Repr

namespace OperatorError

def kind : OperatorError → String
  | split error => "Split/" ++ error.kind
  | expr error => "Expr/" ++ error.kind
  | table _ => "Provider"
  | mismatch _ => "Schema"
  | arithmetic _ => "Arithmetic"
  | sortLimit _ => "SortLimit"
  | execution _ => "Exec"

def message : OperatorError → String
  | split error => "split stream: " ++ error.message
  | expr error => "expression: " ++ error.message
  | table fault => "table provider: " ++ fault.message
  | mismatch fault => "schema mismatch: " ++ fault.message
  | arithmetic fault => "arithmetic error: " ++ fault.message
  | sortLimit limit => "local sort buffered more than " ++ toString limit ++ " rows"
  | execution fault => "execution error: " ++ fault.message

def ofExpr (fault : ExprFault) : OperatorError := expr (.expr fault)
def ofSchema (fault : SchemaFault) : OperatorError := expr (.base (.schema fault))
def ofType (fault : TypeFault) : OperatorError := expr fault.toPlanError
def ofShape (fault : ShapeFault) : OperatorError := split (.shape fault)

end OperatorError
end QueryCluster
