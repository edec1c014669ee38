import QueryCluster.Number.Binary
import QueryCluster.Number.Integer
import QueryCluster.Value.Basic

/-!
# Faults of values, schemas, locations and settings
-/
namespace QueryCluster

inductive SchemaFault where
  | unknownType (name : String)
  | unknownColumn (name : String)
  deriving DecidableEq, Repr

def SchemaFault.message : SchemaFault → String
  | .unknownType name => "unknown data type '" ++ name ++ "'"
  | .unknownColumn name => "unknown column '" ++ name ++ "'"

/-- Why a text is no value of a type. -/
inductive ReadFault where
  | boolean
  | integer (fault : Number.IntegerFault)
  | float (fault : Number.BinaryFormat.ReadFault)
  deriving DecidableEq, Repr

def ReadFault.message : ReadFault → String
  | .boolean => "provided string was not \x60true\x60 or \x60false\x60"
  | .integer fault => fault.message
  | .float fault => fault.message

inductive LocationFault where
  | missingPort (text : String)
  | emptyPart (text : String)
  | badPort (text : String) (fault : Number.IntegerFault)
  deriving DecidableEq, Repr

def LocationFault.message : LocationFault → String
  | .missingPort text => "missing port in '" ++ text ++ "'"
  | .emptyPart text => "empty name or host in '" ++ text ++ "'"
  | .badPort text fault => "bad port in '" ++ text ++ "': " ++ fault.message

inductive ConfigFault where
  | noParallelism
  | emptyRange (max min : Nat)
  | noBatchRows
  | unreadable
  deriving DecidableEq, Repr

def ConfigFault.message : ConfigFault → String
  | .noParallelism => "min_parallelism must be at least 1"
  | .emptyRange max min =>
    "max_parallelism " ++ toString max ++ " is below min_parallelism " ++ toString min
  | .noBatchRows => "split_batch_rows must be at least 1"
  | .unreadable => "not a settings document"

inductive BaseError where
  | config (fault : ConfigFault)
  | schema (fault : SchemaFault)
  | unreadable (text : String) (type : DataType) (fault : ReadFault)
  | location (fault : LocationFault)
  deriving DecidableEq, Repr

namespace BaseError

def kind : BaseError → String
  | config _ => "Config"
  | schema _ => "Schema"
  | unreadable .. => "Type"
  | location _ => "Location"

def message : BaseError → String
  | .config fault => "Invalid configuration: " ++ fault.message
  | .schema fault => "Schema error: " ++ fault.message
  | .unreadable text type fault =>
    "Type error: '" ++ text ++ "' as " ++ type.name ++ ": " ++ fault.message
  | .location fault => "Invalid location: " ++ fault.message

end BaseError

end QueryCluster
