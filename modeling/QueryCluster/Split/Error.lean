/-!
# Faults of splits and of the streams that carry them
-/
namespace QueryCluster

inductive FrameKind where
  | metadata
  | batch
  | finish
  deriving DecidableEq, Repr, Inhabited

namespace FrameKind

def name : FrameKind → String
  | metadata => "metadata"
  | batch => "batch"
  | finish => "end"

def code : FrameKind → Nat
  | metadata => 1
  | batch => 2
  | finish => 3

def ofCode? : Nat → Option FrameKind
  | 1 => some metadata
  | 2 => some batch
  | 3 => some finish
  | _ => none

theorem ofCode?_code (k : FrameKind) : ofCode? k.code = some k := by cases k <;> rfl

end FrameKind

inductive ShapeFault where
  | columnCount (given expected : Nat)
  | keyCount (keys flags expected : Nat)
  | ragged
  | rowWidth (given expected : Nat)
  | rowKeys (given expected : Nat)
  | appendShape (columns keys toColumns toKeys : Nat)
  | streamShape (columns keys toColumns toKeys : Nat)
  deriving DecidableEq, Repr

def ShapeFault.message : ShapeFault → String
  | .columnCount given expected =>
    toString given ++ " columns for metadata with " ++ toString expected
  | .keyCount keys flags expected =>
    toString keys ++ " key arrays / " ++ toString flags ++ " flag arrays for metadata with " ++
      toString expected ++ " keys"
  | .ragged => "ragged split arrays"
  | .rowWidth given expected =>
    "row has " ++ toString given ++ " values, split has " ++ toString expected ++ " columns"
  | .rowKeys given expected =>
    "row has " ++ toString given ++ " keys, split has " ++ toString expected
  | .appendShape columns keys toColumns toKeys =>
    "cannot append split of " ++ toString columns ++ "+" ++ toString keys ++ " arrays to " ++
      toString toColumns ++ "+" ++ toString toKeys
  | .streamShape columns keys toColumns toKeys =>
    "split has " ++ toString columns ++ "+" ++ toString keys ++ " arrays, stream metadata has " ++
      toString toColumns ++ "+" ++ toString toKeys

inductive ProtocolFault where
  | badMagic (magic version : Nat)
  | payloadTooLong (length : Nat)
  | unknownKind (code : Nat)
  | metadataTwice
  | batchFirst
  | finishFirst
  | expectedMetadata (kind : FrameKind)
  | lateMetadata
  deriving DecidableEq, Repr

def maxPayload : Nat := 1 <<< 30

def ProtocolFault.message : ProtocolFault → String
  | .badMagic magic version =>
    "bad magic/version 0x" ++ String.ofList (Nat.toDigits 16 magic) ++ "/" ++ toString version
  | .payloadTooLong length =>
    "payload_len " ++ toString length ++ " exceeds max " ++ toString maxPayload
  | .unknownKind code => "unknown frame kind " ++ toString code
  | .metadataTwice => "metadata already written"
  | .batchFirst => "batch before metadata"
  | .finishFirst => "stream finished before metadata"
  | .expectedMetadata kind => "expected metadata frame, got " ++ kind.name
  | .lateMetadata => "metadata frame after stream start"

inductive SplitError where
  | io
  | codec
  | checksum (kind : FrameKind)
  | truncated
  | protocol (fault : ProtocolFault)
  | shape (fault : ShapeFault)
  deriving DecidableEq, Repr

namespace SplitError

def kind : SplitError → String
  | io => "Io"
  | codec => "Codec"
  | checksum _ => "ChecksumMismatch"
  | truncated => "Truncated"
  | protocol _ => "Protocol"
  | shape _ => "Schema"

def message : SplitError → String
  | io => "split stream io"
  | codec => "codec error"
  | checksum kind => "checksum mismatch on " ++ kind.name ++ " frame"
  | truncated => "split stream truncated: upstream closed before end of stream"
  | protocol fault => "split stream protocol: " ++ fault.message
  | shape fault => "split schema: " ++ fault.message

end SplitError
end QueryCluster
