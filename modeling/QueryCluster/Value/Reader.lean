import QueryCluster.BaseError
import QueryCluster.Value.Basic

/-!
# Reading values from text

Empty text is null. Truth values and numbers may stand between blanks; text and byte columns take
every character.
-/
namespace QueryCluster

namespace DataType

def read (s : String) : Except BaseError DataType :=
  let name := Text.trim s
  match ofSpelling? name with
  | some t => .ok t
  | none => .error (.schema (.unknownType name))

end DataType

namespace Value

def readBool (s : String) : Except ReadFault Bool :=
  if s == "true" then .ok true
  else if s == "false" then .ok false
  else .error .boolean

def readTrimmed (s : String) : DataType → Except ReadFault Value
  | .boolean => (readBool (Text.trim s)).map .bool
  | .int32 =>
    match Number.readSigned Number.int32Limit (Text.trim s).toList with
    | .ok i => .ok (.int32 (Int32.ofInt i))
    | .error e => .error (.integer e)
  | .int64 =>
    match Number.readSigned Number.int64Limit (Text.trim s).toList with
    | .ok i => .ok (.int64 (Int64.ofInt i))
    | .error e => .error (.integer e)
  | .float32 =>
    match Single.read (Text.trim s).toList with
    | .ok x => .ok (.float32 x)
    | .error e => .error (.float e)
  | .float64 =>
    match Double.read (Text.trim s).toList with
    | .ok x => .ok (.float64 x)
    | .error e => .error (.float e)
  | .utf8 => .ok (.text s)
  | .binary => .ok (.bytes (Bytes.ofString s))

def read (s : String) (t : DataType) : Except BaseError Value :=
  if s.isEmpty then .ok .null
  else match readTrimmed s t with
    | .ok v => .ok v
    | .error fault => .error (.unreadable s t fault)

end Value
end QueryCluster
