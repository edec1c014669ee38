import QueryCluster.Operator.Error
import QueryCluster.Split.Basic

/-!
# Comma-separated records

Fields are divided by commas and records by line ends; blank lines count for nothing. A field that
starts with a quote runs to the next single quote, two quotes standing for one, and what follows up
to the comma belongs to it too. All records have as many fields as the first.
-/
namespace QueryCluster.Csv

def comma : UInt8 := 44
def quote : UInt8 := 34

def isLineEnd (b : UInt8) : Bool := b == 10 || b == 13

/-- Where the reader stands. -/
inductive Place where
  | recordStart
  | fieldStart
  | unquoted
  | quoted
  /-- Behind a quote inside a quoted field. -/
  | closing
  deriving DecidableEq, Repr

structure Reader where
  place : Place := .recordStart
  /-- The field at hand, last byte first. -/
  field : Bytes := []
  /-- Fields of the record at hand, last first. -/
  fields : List Bytes := []
  /-- Records, last first. -/
  records : List (List Bytes) := []

namespace Reader

def put (r : Reader) (b : UInt8) (place : Place) : Reader :=
  { r with field := b :: r.field, place }

def endField (r : Reader) : Reader :=
  { r with field := [], fields := r.field.reverse :: r.fields, place := .fieldStart }

def endRecord (r : Reader) : Reader :=
  let r := r.endField
  { r with fields := [], records := r.fields.reverse :: r.records, place := .recordStart }

/-- A byte outside quotes. -/
def plain (r : Reader) (b : UInt8) : Reader :=
  if b == comma then r.endField
  else if isLineEnd b then r.endRecord
  else r.put b .unquoted

def start (r : Reader) (b : UInt8) : Reader :=
  if b == quote then { r with place := .quoted } else r.plain b

def step (r : Reader) (b : UInt8) : Reader :=
  match r.place with
  | .recordStart => if isLineEnd b then r else r.start b
  | .fieldStart => r.start b
  | .unquoted => r.plain b
  | .quoted => if b == quote then { r with place := .closing } else r.put b .quoted
  | .closing => if b == quote then r.put b .quoted else r.plain b

def finish (r : Reader) : List (List Bytes) :=
  (if r.place = .recordStart then r else r.endRecord).records.reverse

end Reader

/-- A byte order mark in front of a text. -/
def dropMark : Bytes → Bytes
  | 0xef :: 0xbb :: 0xbf :: bs => bs
  | bs => bs

def records (bs : Bytes) : List (List Bytes) :=
  ((dropMark bs).foldl Reader.step {}).finish

/-- The fields of a record as text, if it is as wide as it should be. -/
def texts (width : Nat) (record : List Bytes) : Except CsvFault (List String) :=
  if record.length ≠ width then .error .width
  else match record.mapM Bytes.toString? with
    | some fields => .ok fields
    | none => .error .encoding

/-!
## Writing comma-separated records

A field with a comma, a quote or a line end stands in quotes, and its own quotes are doubled. A
record without a byte of its own is written as an empty field in quotes, so that its line is not
blank.
-/

def needsQuotes (cs : List Char) : Bool :=
  cs.any fun c => c == ',' || c == '"' || c == '\r' || c == '\n'

def writeField (s : String) : String :=
  let cs := s.toList
  if needsQuotes cs then
    "\"" ++ String.ofList (cs.flatMap fun c => if c == '"' then [c, c] else [c]) ++ "\""
  else s

def writeRecord (fields : List String) : String :=
  let line := ",".intercalate (fields.map writeField)
  (if line.isEmpty then "\"\"" else line) ++ "\n"

def writeValue (v : Value) : String := if v.isNull then "" else v.display

/-- The rows of a split below a header with the names of its columns. -/
def writeSplit (s : Split) : String :=
  writeRecord (s.schema.columns.map (·.name)) ++
    String.join (s.rows.map fun r => writeRecord (r.values.map writeValue))

end QueryCluster.Csv
