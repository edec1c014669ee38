import QueryCluster.Tables.Basic
import QueryCluster.Tables.Csv
import QueryCluster.Tables.Files
import QueryCluster.Value.Reader

/-!
# Tables in files

A table is a directory below the root, named by catalog, schema and table; each of its partitions is
a file with a header. Rows are read in splits of at most the batch size.
-/
namespace QueryCluster

structure CsvTables where
  files : FileTree
  root : String
  batchRows : Nat

namespace CsvTables

def directory (t : CsvTables) (name : TableName) : String :=
  joinPath (joinPath (joinPath t.root name.catalog) name.schema) name.table

def partitionPath (t : CsvTables) (name : TableName) (partition : Nat) : String :=
  joinPath (t.directory name) ("part-" ++ toString partition ++ ".csv")

def partitionCount (t : CsvTables) (name : TableName) : Except OperatorError Nat :=
  match t.files.list (t.directory name) with
  | .ok names => .ok (names.filter fun n => n.startsWith "part-" && n.endsWith ".csv").length
  | .error fault => .error (.table (.unlisted (t.directory name) fault))

def contents (t : CsvTables) (path : String) : Except OperatorError Bytes :=
  match t.files.locate path with
  | .error fault => .error (.table (.unopened path fault))
  | .ok p => match t.files.file? p with
    | some bs => .ok bs
    | none => .error (.table (.unlisted path .isDirectory))

def position (path : String) (header : List String) (f : Field) : Except OperatorError Nat :=
  match header.findIdx? fun h => Text.trim h == f.name with
  | some i => .ok i
  | none => .error (.mismatch (.fileColumn path f.name))

def readCell (cells : List String) (f : Field) (position : Nat) : Except OperatorError Value :=
  (Value.read (cells[position]?.getD "") f.type).mapError fun e => .mismatch (.base e)

def readRow (path : String) (width : Nat) (columns : List (Field × Nat)) (record : List Bytes) :
    Except OperatorError Row := do
  let cells ← (Csv.texts width record).mapError fun fault => .table (.malformed path fault)
  return { values := ← columns.mapM fun (f, position) => readCell cells f position }

/-- Consecutive splits of at most the batch size, none of them empty. -/
def pieces (size : Nat) (schema : Schema) (rows : List Row) : List Split :=
  if rows.length = 0 ∨ size = 0 then []
  else { schema, rows := rows.take size } :: pieces size schema (rows.drop size)
termination_by rows.length
decreasing_by simp only [List.length_drop]; omega

def read (t : CsvTables) (name : TableName) (partition : Nat) (schema : Schema) :
    Except OperatorError (List Split) := do
  let path := t.partitionPath name partition
  let records := Csv.records (← t.contents path)
  let header := records.head?.getD []
  let titles ← (Csv.texts header.length header).mapError fun fault => .table (.malformed path fault)
  let positions ← schema.columns.mapM (position path titles)
  let rows ← (records.drop 1).mapM (readRow path header.length (schema.columns.zip positions))
  return pieces (max t.batchRows 1) schema.withoutKeys rows

def store (t : CsvTables) : TableStore where
  partitionCount := t.partitionCount
  read := t.read

end CsvTables
end QueryCluster
