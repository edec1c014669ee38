import QueryCluster.Text.Quoted

/-!
# Pipeline documents

What a document says, before it is checked: the steps of a linear pipeline in the order in which
rows pass them.
-/
namespace QueryCluster.Pipeline

structure ColumnEntry where
  name : String
  type : String
  deriving DecidableEq, Repr

structure AggregateEntry where
  func : String
  column : Option String
  label : Option String
  deriving DecidableEq, Repr

structure ScanEntry where
  table : String
  catalog : Option String
  schema : Option String
  partitions : UInt64
  columns : List ColumnEntry
  filter : Option String
  deriving DecidableEq, Repr

inductive Step where
  | scan (entry : ScanEntry)
  | filter (expr : String)
  | project (columns : List String)
  | groupBy (keys : List String) (aggs : List AggregateEntry)
  | orderBy (items : List String)
  | limit (count : UInt64)
  deriving DecidableEq, Repr

open Text (quoted)

def bracketed (items : List String) : String := "[" ++ ", ".intercalate items ++ "]"

def braced (name : String) (fields : List (String × String)) : String :=
  name ++ " \x7b " ++ ", ".intercalate (fields.map fun (k, v) => k ++ ": " ++ v) ++ " \x7d"

def optional : Option String → String
  | some s => "Some(" ++ quoted s ++ ")"
  | none => "None"

def ColumnEntry.literal (c : ColumnEntry) : String :=
  braced "FieldDef" [("name", quoted c.name), ("data_type", quoted c.type)]

def AggregateEntry.literal (a : AggregateEntry) : String :=
  braced "AggDef" [("func", quoted a.func), ("column", optional a.column), ("alias", optional a.label)]

/-- A step with all its fields spelt out. -/
def Step.literal : Step → String
  | scan e => braced "Scan" [("table", quoted e.table), ("catalog", optional e.catalog),
      ("schema", optional e.schema), ("partitions", toString e.partitions),
      ("columns", bracketed (e.columns.map ColumnEntry.literal)), ("filter", optional e.filter)]
  | filter expr => braced "Filter" [("expr", quoted expr)]
  | project columns => braced "Project" [("columns", bracketed (columns.map quoted))]
  | groupBy keys aggs => braced "GroupBy" [("keys", bracketed (keys.map quoted)),
      ("aggs", bracketed (aggs.map AggregateEntry.literal))]
  | orderBy items => braced "OrderBy" [("items", bracketed (items.map quoted))]
  | limit count => braced "Limit" [("count", toString count)]

end QueryCluster.Pipeline
