import QueryCluster.Codec.Batch
import QueryCluster.Stream.Frame

/-!
# Reading split streams

A reader receives the schema once and then batch after batch. Only the end frame ends a stream: a
source that closes earlier is truncated.
-/
namespace QueryCluster

structure StreamReader where
  source : Source
  schema : Option Schema := none
  done : Bool := false
  deriving DecidableEq, Repr

namespace StreamReader

def ofBytes (bs : Bytes) : StreamReader := { source := Source.ofBytes bs }

def readSchema (r : StreamReader) : Except SplitError Schema × StreamReader :=
  match r.schema with
  | some s => (.ok s, r)
  | none =>
    let (frame, source) := Frame.read r.source
    let r := { r with source }
    match frame with
    | .error e => (.error e, r)
    | .ok none => (.error .truncated, r)
    | .ok (some ⟨.metadata, payload⟩) =>
      match Codec.decode? Schema.decode payload with
      | some s => (.ok s, { r with schema := some s })
      | none => (.error .codec, r)
    | .ok (some ⟨kind, _⟩) => (.error (.protocol (.expectedMetadata kind)), r)

def readBatch (schema : Schema) (payload : Bytes) : Except SplitError Split :=
  match Codec.decode? Batch.decode payload with
  | none => .error .codec
  | some b => (b.toSplit schema).mapError .shape

/-- The next batch under a known schema; `none` at the end of the stream. -/
def nextBatch (r : StreamReader) (schema : Schema) : Except SplitError (Option Split) × StreamReader :=
  let (frame, source) := Frame.read r.source
  let r := { r with source }
  match frame with
  | .error e => (.error e, r)
  | .ok none => (.error .truncated, r)
  | .ok (some ⟨.batch, payload⟩) => ((readBatch schema payload).map some, r)
  | .ok (some ⟨.finish, _⟩) => (.ok none, { r with done := true })
  | .ok (some ⟨.metadata, _⟩) => (.error (.protocol .lateMetadata), r)

def readSplit (r : StreamReader) : Except SplitError (Option Split) × StreamReader :=
  if r.done then (.ok none, r)
  else
    let (schema, r) := r.readSchema
    match schema with
    | .error e => (.error e, r)
    | .ok s => r.nextBatch s

/-- Appends batches until the stream ends; each batch takes at least a header from the source. -/
def readRest : (fuel : Nat) → StreamReader → Split → Except SplitError Split × StreamReader
  | 0, r, _ => (.error .truncated, r)
  | fuel + 1, r, all =>
    match r.readSplit with
    | (.error e, r) => (.error e, r)
    | (.ok none, r) => (.ok all, r)
    | (.ok (some s), r) =>
      match all.append s with
      | .error fault => (.error (.shape fault), r)
      | .ok all => readRest fuel r all

/-- The rest of the stream as one split. -/
def readAll (r : StreamReader) : Except SplitError Split × StreamReader :=
  match r.readSchema with
  | (.error e, r) => (.error e, r)
  | (.ok schema, r) => readRest (r.source.size + 2) r { schema }

end StreamReader
end QueryCluster
