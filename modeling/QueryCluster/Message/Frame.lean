import QueryCluster.Json.Reader
import QueryCluster.Json.Text
import QueryCluster.Message.Basic
import QueryCluster.Split.Error
import QueryCluster.Stream.Frame

/-!
# Message frames

A message is its length in four bytes and then its JSON text. Reading one takes no byte behind it.
-/
namespace QueryCluster

inductive PayloadFault where
  | notEncoded
  | split (error : SplitError)
  deriving DecidableEq, Repr

inductive RpcError where
  | io
  | codec
  | tooLong (length : Nat)
  | closed
  | remote (message : String)
  | unexpected (response : Response)
  | payload (fault : PayloadFault)
  deriving DecidableEq, Repr

namespace RpcError

def kind : RpcError → String
  | io => "Io"
  | codec => "Codec"
  | tooLong _ => "FrameTooLarge"
  | closed => "Closed"
  | remote _ => "Remote"
  | unexpected _ => "Unexpected"
  | payload _ => "Payload"

def message : RpcError → String
  | io => "rpc io"
  | codec => "rpc codec"
  | tooLong length => "rpc frame of " ++ toString length ++ " bytes exceeds limit"
  | closed => "connection closed by peer"
  | remote message => "remote error: " ++ message
  | unexpected response => "unexpected response: " ++ response.literal
  | payload .notEncoded => "bad payload"
  | payload (.split error) => "bad payload: " ++ error.message

end RpcError

namespace Message

def maxLength : Nat := 1 <<< 28

def write (c : Content) : Except RpcError Bytes :=
  let body := Bytes.ofString (Json.render c)
  if maxLength < body.length then .error (.tooLong body.length)
  else .ok (Bytes.ofNatBE 4 body.length ++ body)

def decode? {α : Type} (ofContent? : Content → Option α) (body : Bytes) : Option α :=
  ((Bytes.toString? body).bind Json.content?).bind ofContent?

/-- A source that ends before the length is complete is closed. -/
def read {α : Type} (ofContent? : Content → Option α) (s : Source) : Except RpcError α × Source :=
  match Source.take 4 s with
  | .closed _ rest => (.error .closed, rest)
  | .broken _ rest => (.error .io, rest)
  | .full head rest =>
    let length := Bytes.toNatBE head
    if maxLength < length then (.error (.tooLong length), rest)
    else match Source.take length rest with
      | .closed _ rest => (.error .io, rest)
      | .broken _ rest => (.error .io, rest)
      | .full body rest =>
        match decode? ofContent? body with
        | some a => (.ok a, rest)
        | none => (.error .codec, rest)

end Message
end QueryCluster
