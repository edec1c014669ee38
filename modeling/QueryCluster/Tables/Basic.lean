import QueryCluster.Operator.Error
import QueryCluster.Split.Basic

/-!
# Stored tables

A table store knows how many partitions a table has and reads one partition under a schema, whose
columns are found by name.
-/
namespace QueryCluster

structure TableStore where
  partitionCount : TableName → Except OperatorError Nat
  read : TableName → (partition : Nat) → Schema → Except OperatorError (List Split)

/-- Tables in memory: each partition is a list of splits. -/
abbrev MemoryTables := List (TableName × List (List Split))

namespace MemoryTables

/-- A table put under a name in use replaces the one before. -/
def insert (t : MemoryTables) (name : TableName) (partitions : List (List Split)) : MemoryTables :=
  (name, partitions) :: t.filter fun (n, _) => n ≠ name

def partitions (t : MemoryTables) (name : TableName) : Except OperatorError (List (List Split)) :=
  match t.lookup name with
  | some ps => .ok ps
  | none => .error (.table (.noTable name))

def storedColumn (stored : Split) (f : Field) : Except OperatorError (List Value) :=
  match stored.schema.indexOf? f.name with
  | some i => .ok (stored.column i)
  | none => .error (.mismatch (.storedColumn f.name))

/-- A stored split under the columns of a schema. -/
def select (stored : Split) (schema : Schema) : Except OperatorError Split := do
  let columns ← schema.columns.mapM (storedColumn stored)
  (Split.ofColumns schema.withoutKeys columns [] []).mapError .ofShape

def read (t : MemoryTables) (name : TableName) (partition : Nat) (schema : Schema) :
    Except OperatorError (List Split) := do
  let ps ← t.partitions name
  match ps[partition]? with
  | some splits => splits.mapM (select · schema)
  | none => throw (.table (.noPartition name.table ps.length partition))

def store (t : MemoryTables) : TableStore where
  partitionCount name := (t.partitions name).map List.length
  read := t.read

end MemoryTables
end QueryCluster
