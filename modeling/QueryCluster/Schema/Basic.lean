import QueryCluster.BaseError
import QueryCluster.Text.Quoted

/-!
# Schemas

A schema names and types the columns of a stream of rows and, for streams that carry sort keys,
one field for each key.
-/
namespace QueryCluster

structure Field where
  name : String
  type : DataType
  deriving DecidableEq, Repr, Inhabited

structure Schema where
  columns : List Field
  keys : List Field := []
  deriving DecidableEq, Repr, Inhabited

def Field.literal (f : Field) : String :=
  "Field \x7b name: " ++ Text.quoted f.name ++ ", data_type: " ++ f.type.name ++ " \x7d"

namespace Schema

def literal (s : Schema) : String :=
  "Metadata \x7b columns: [" ++ ", ".intercalate (s.columns.map Field.literal) ++ "], keys: [" ++
    ", ".intercalate (s.keys.map Field.literal) ++ "] \x7d"

/-- The part of a name behind its last dot. -/
def lastSegment (name : String) : String :=
  String.ofList (name.toList.reverse.takeWhile (· ≠ '.')).reverse

/-- Position of a column: by its full name first, else by the last segment of a dotted name. -/
def indexOf? (s : Schema) (name : String) : Option Nat :=
  match s.columns.findIdx? (·.name == name) with
  | some i => some i
  | none => s.columns.findIdx? (·.name == lastSegment name)

def field? (s : Schema) (name : String) : Option Field := do
  let i ← s.indexOf? name
  s.columns[i]?

def typeOf (s : Schema) (name : String) : Except SchemaFault DataType :=
  match s.field? name with
  | some f => .ok f.type
  | none => .error (.unknownColumn name)

def addKey (s : Schema) (t : DataType) : Schema :=
  { s with keys := s.keys ++ [⟨"__key" ++ toString s.keys.length, t⟩] }

def withoutKeys (s : Schema) : Schema := { s with keys := [] }

end Schema
end QueryCluster
