import QueryCluster.Codec.Basic
import QueryCluster.Schema.Basic
import QueryCluster.Value.Order

/-!
# Values and schemas in bytes
-/
namespace QueryCluster

open Codec

namespace Value

def encode : Value → Bytes
  | null => encodeTag 0
  | bool b => encodeTag 1 ++ encodeFlag b
  | int32 i => encodeTag 2 ++ encodeWord 4 i.toUInt32.toNat
  | int64 i => encodeTag 3 ++ encodeWord 8 i.toUInt64.toNat
  | float32 x => encodeTag 4 ++ encodeWord 4 x.bits.toNat
  | float64 x => encodeTag 5 ++ encodeWord 8 x.bits.toNat
  | text s => encodeTag 6 ++ encodeText s
  | bytes bs => encodeTag 7 ++ encodeBlob bs

def decode : Decoder Value := do
  match ← decodeTag with
  | 0 => return null
  | 1 => return bool (← decodeFlag)
  | 2 => return int32 (UInt32.ofNat (← decodeWord 4)).toInt32
  | 3 => return int64 (UInt64.ofNat (← decodeWord 8)).toInt64
  | 4 => return float32 ⟨UInt32.ofNat (← decodeWord 4)⟩
  | 5 => return float64 ⟨UInt64.ofNat (← decodeWord 8)⟩
  | 6 => return text (← decodeText)
  | 7 => return bytes (← decodeBlob)
  | _ => failure

end Value

namespace DataType

def code : DataType → Nat
  | boolean => 0
  | int32 => 1
  | int64 => 2
  | float32 => 3
  | float64 => 4
  | utf8 => 5
  | binary => 6

def ofCode? (n : Nat) : Option DataType := all[n]?

theorem ofCode?_code (t : DataType) : ofCode? t.code = some t := by cases t <;> rfl

def encode (t : DataType) : Bytes := encodeTag t.code

def decode : Decoder DataType := do
  let n ← decodeTag
  ofCode? n

end DataType

namespace Direction

def encode : Direction → Bytes
  | ascending => encodeTag 0
  | descending => encodeTag 1

def decode : Decoder Direction := do
  match ← decodeTag with
  | 0 => return ascending
  | 1 => return descending
  | _ => failure

end Direction

namespace Field

def encode (f : Field) : Bytes := encodeText f.name ++ f.type.encode

def decode : Decoder Field := do
  let name ← decodeText
  let type ← DataType.decode
  return ⟨name, type⟩

end Field

namespace Schema

def encode (s : Schema) : Bytes := encodeList Field.encode s.columns ++ encodeList Field.encode s.keys

def decode : Decoder Schema := do
  let columns ← decodeList Field.decode
  let keys ← decodeList Field.decode
  return { columns, keys }

end Schema
end QueryCluster
