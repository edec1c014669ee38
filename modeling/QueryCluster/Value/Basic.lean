import QueryCluster.Bytes
import QueryCluster.Number.Float
import QueryCluster.Text.Blank
import QueryCluster.Text.Quoted

/-!
# Column types and row values

The seven column types and the names they are written by in documents and table definitions.
-/
namespace QueryCluster

inductive DataType where
  | boolean
  | int32
  | int64
  | float32
  | float64
  | utf8
  | binary
  deriving DecidableEq, Repr, Inhabited

namespace DataType

def name : DataType → String
  | boolean => "Boolean"
  | int32 => "Int32"
  | int64 => "Int64"
  | float32 => "Float32"
  | float64 => "Float64"
  | utf8 => "Utf8"
  | binary => "Binary"

def all : List DataType := [boolean, int32, int64, float32, float64, utf8, binary]

def isNumeric : DataType → Bool
  | int32 | int64 | float32 | float64 => true
  | _ => false

def isFloat : DataType → Bool
  | float32 | float64 => true
  | _ => false

/-- Every spelling that a type may be written by. -/
def spellings : DataType → List String
  | boolean => ["Boolean", "bool", "boolean"]
  | int32 => ["Int32", "i32", "int32", "int"]
  | int64 => ["Int64", "i64", "int64", "bigint"]
  | float32 => ["Float32", "f32", "float32", "float"]
  | float64 => ["Float64", "f64", "float64", "double"]
  | utf8 => ["Utf8", "utf8", "string", "varchar"]
  | binary => ["Binary", "bytes", "binary"]

def ofSpelling? (s : String) : Option DataType := all.find? fun t => t.spellings.contains s

def ofName? (s : String) : Option DataType := all.find? fun t => t.name == s

theorem ofName?_name (t : DataType) : ofName? t.name = some t := by
  cases t <;> decide

end DataType

/-!
## Row values

A value is absent knowledge (`null`) or a datum of one of the column types. Numbers of different
widths are views of the same integer or real number.
-/

inductive Value where
  | null
  | bool (b : Bool)
  | int32 (i : Int32)
  | int64 (i : Int64)
  | float32 (x : Single)
  | float64 (x : Double)
  | text (s : String)
  | bytes (bs : Bytes)
  deriving DecidableEq, Repr, Inhabited

namespace Value

/-- Null belongs to every type and has none of its own. -/
def dataType? : Value → Option DataType
  | null => none
  | bool _ => some .boolean
  | int32 _ => some .int32
  | int64 _ => some .int64
  | float32 _ => some .float32
  | float64 _ => some .float64
  | text _ => some .utf8
  | bytes _ => some .binary

def isNull : Value → Bool
  | null => true
  | _ => false

def toBool? : Value → Option Bool
  | bool b => some b
  | _ => none

def toInt? : Value → Option Int
  | int32 i => some i.toInt
  | int64 i => some i.toInt
  | _ => none

def toDouble? : Value → Option Double
  | int32 i => some (Double.ofInt i.toInt)
  | int64 i => some (Double.ofInt i.toInt)
  | float32 x => some x.widen
  | float64 x => some x
  | _ => none

/-- A value fits a column of its own type, and null fits every column. -/
def Fits (v : Value) (t : DataType) : Prop := v = null ∨ v.dataType? = some t

instance (v : Value) (t : DataType) : Decidable (v.Fits t) := by
  unfold Fits; infer_instance

/-- Text for a reader. -/
def display : Value → String
  | null => "NULL"
  | bool b => if b then "true" else "false"
  | int32 i => toString i.toInt
  | int64 i => toString i.toInt
  | float32 x => x.plainText
  | float64 x => x.plainText
  | text s => s
  | bytes bs => bs.toHex

/-- Text that names the kind of value too. -/
def literal : Value → String
  | null => "Null"
  | bool b => "Bool(" ++ (if b then "true" else "false") ++ ")"
  | int32 i => "I32(" ++ toString i.toInt ++ ")"
  | int64 i => "I64(" ++ toString i.toInt ++ ")"
  | float32 x => "F32(" ++ x.literalText ++ ")"
  | float64 x => "F64(" ++ x.literalText ++ ")"
  | text s => "Str(" ++ Text.quoted s ++ ")"
  | bytes bs => "Bin([" ++ ", ".intercalate (bs.map fun b => toString b.toNat) ++ "])"

end Value
end QueryCluster
