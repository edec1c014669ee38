import QueryCluster.BaseError

/-!
# Executor locations

An executor has a name and an address. In text they stand as `name=host:port`; a bare `host:port`
is its own name.
-/
namespace QueryCluster

structure Location where
  name : String
  host : String
  port : UInt16
  deriving DecidableEq, Repr, Inhabited

namespace Location

def address (l : Location) : String := l.host ++ ":" ++ toString l.port.toNat

def display (l : Location) : String := l.name ++ "@" ++ l.address

/-- The parts before and after the first `c`. -/
def splitFirst? (c : Char) (cs : List Char) : Option (List Char × List Char) :=
  match cs.dropWhile (· ≠ c) with
  | [] => none
  | _ :: tail => some (cs.takeWhile (· ≠ c), tail)

/-- The parts before and after the last `c`. -/
def splitLast? (c : Char) (cs : List Char) : Option (List Char × List Char) :=
  (splitFirst? c cs.reverse).map fun (tail, front) => (front.reverse, tail.reverse)

def readTrimmed (s : String) : Except LocationFault Location :=
  let cs := s.toList
  let (name, address) := match splitFirst? '=' cs with
    | some (name, address) => (Text.trimChars name, Text.trimChars address)
    | none => (cs, cs)
  match splitLast? ':' address with
  | none => .error (.missingPort s)
  | some (host, port) =>
    if name.isEmpty || host.isEmpty then .error (.emptyPart s)
    else match Number.readUnsigned Number.word16Limit port with
      | .ok n => .ok ⟨String.ofList name, String.ofList host, UInt16.ofNat n⟩
      | .error fault => .error (.badPort s fault)

def read (s : String) : Except BaseError Location :=
  (readTrimmed (Text.trim s)).mapError .location

end Location
end QueryCluster
