import QueryCluster.Bytes
import QueryCluster.Checksum.Blake3
import QueryCluster.Codec.Basic
import QueryCluster.Split.Error

/-!
# Byte sources and frames

Bytes arrive in deliveries of any size. A delivery may also be an interruption, which only asks to
try again, or a failure of the connection, which is met once. An empty delivery, like the end of
the list, says that nothing more is there.
-/
namespace QueryCluster

inductive Delivery where
  | data (bs : Bytes)
  | interrupted
  | broken
  deriving DecidableEq, Repr

abbrev Source := List Delivery

namespace Source

def ofBytes (bs : Bytes) : Source := if bs.isEmpty then [] else [.data bs]

/-- All bytes that a source delivers. -/
def bytes (s : Source) : Bytes :=
  s.flatMap fun
    | .data bs => bs
    | _ => []

/-- A bound on the number of times that something can be taken from a source. -/
def size : Source → Nat
  | [] => 0
  | .data bs :: s => bs.length + 1 + size s
  | _ :: s => 1 + size s

/-- What asking for a number of bytes comes to. -/
inductive Taken where
  | full (bs : Bytes) (rest : Source)
  | closed (got : Bytes) (rest : Source)
  | broken (got : Bytes) (rest : Source)
  deriving DecidableEq, Repr

def Taken.prepend (front : Bytes) : Taken → Taken
  | full bs rest => full (front ++ bs) rest
  | closed got rest => closed (front ++ got) rest
  | broken got rest => broken (front ++ got) rest

/-- Collects `n` bytes over as many deliveries as it takes. -/
def take : Nat → Source → Taken
  | 0, s => .full [] s
  | _ + 1, [] => .closed [] []
  | n + 1, .interrupted :: s => take (n + 1) s
  | _ + 1, .broken :: s => .broken [] s
  | n + 1, .data bs :: s =>
    if bs.isEmpty then .closed [] s
    else if n + 1 < bs.length then .full (bs.take (n + 1)) (.data (bs.drop (n + 1)) :: s)
    else (take (n + 1 - bs.length) s).prepend bs

end Source

/-!
## Frames

A frame is a header of 48 bytes and a payload. The header holds a magic number, a version, the
kind of the frame, a zero, the length of the payload and its checksum. A reader takes the header's
word for nothing: it checks magic number and version, then the length, then the kind, and at the
end the checksum.
-/

structure Frame where
  kind : FrameKind
  payload : Bytes
  deriving DecidableEq, Repr

namespace Frame

def magic : Nat := 0x5153504c
def version : Nat := 1
def headerLength : Nat := 48

def header (f : Frame) : Bytes :=
  Bytes.ofNatLE 4 magic ++ Bytes.ofNatLE 2 version ++ [UInt8.ofNat f.kind.code, 0] ++
    Bytes.ofNatLE 8 f.payload.length ++ Blake3.digest f.payload

def encode (f : Frame) : Bytes := f.header ++ f.payload

/-- What a header announces. -/
structure Header where
  kind : FrameKind
  length : Nat
  checksum : Bytes
  deriving DecidableEq, Repr

def Header.read (bs : Bytes) : Except ProtocolFault Header :=
  let m := Bytes.toNatLE (bs.take 4)
  let v := Bytes.toNatLE ((bs.drop 4).take 2)
  let code := Bytes.toNatLE ((bs.drop 6).take 1)
  let length := Bytes.toNatLE ((bs.drop 8).take 8)
  if m ≠ magic ∨ v ≠ version then .error (.badMagic m v)
  else if maxPayload < length then .error (.payloadTooLong length)
  else match FrameKind.ofCode? code with
    | some kind => .ok ⟨kind, length, (bs.drop 16).take 32⟩
    | none => .error (.unknownKind code)

def readPayload (h : Header) (s : Source) : Except SplitError (Option Frame) × Source :=
  match s.take h.length with
  | .full payload rest =>
    if Blake3.digest payload = h.checksum then (.ok (some ⟨h.kind, payload⟩), rest)
    else (.error (.checksum h.kind), rest)
  | .closed _ rest => (.error .truncated, rest)
  | .broken _ rest => (.error .io, rest)

/-- Reads a frame; `none` when the source ends before its first byte. -/
def read (s : Source) : Except SplitError (Option Frame) × Source :=
  match s.take headerLength with
  | .closed [] rest => (.ok none, rest)
  | .closed _ rest => (.error .truncated, rest)
  | .broken _ rest => (.error .io, rest)
  | .full bs rest =>
    match Header.read bs with
    | .ok h => readPayload h rest
    | .error fault => (.error (.protocol fault), rest)

end Frame
end QueryCluster
