import QueryCluster.Message.Frame
import QueryCluster.Stream.Reader
import QueryCluster.Stream.Writer
import QueryCluster.Text.Base64

/-!
# Answers to requests

What a caller makes of a response. Result rows travel as text of a complete split stream.
-/
namespace QueryCluster

def encodeResults (s : Split) (batchRows : Nat) : String :=
  Text.Base64.encode (StreamWriter.ofSplit s batchRows)

def decodeResults (text : String) : Except RpcError Split :=
  match Text.Base64.decode? text with
  | none => .error (.payload .notEncoded)
  | some bs => (StreamReader.ofBytes bs).readAll.1.mapError fun e => .payload (.split e)

namespace Response

/-- A response that was not asked for. -/
def refuse : Response → RpcError
  | error message => .remote message
  | other => .unexpected other

def toAck : Response → Except RpcError Unit
  | ack => .ok ()
  | other => .error other.refuse

def toStatus : Response → Except RpcError StatusReport
  | status report => .ok report
  | other => .error other.refuse

def toResults : Response → Except RpcError Split
  | results stream => decodeResults stream
  | other => .error other.refuse

end Response
end QueryCluster
