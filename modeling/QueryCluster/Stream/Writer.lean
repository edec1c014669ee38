import QueryCluster.Codec.Batch
import QueryCluster.Stream.Frame

/-!
# Writing split streams

A stream is one metadata frame, any number of batch frames and one end frame. Each split is cut
into batches of at most the batch size.
-/
namespace QueryCluster

structure StreamWriter where
  batchRows : Nat
  schema : Option Schema := none
  rowsWritten : Nat := 0
  deriving DecidableEq, Repr

namespace StreamWriter

def start (batchRows : Nat) : StreamWriter := { batchRows := max batchRows 1 }

def schemaFrame (s : Schema) : Bytes := Frame.encode ⟨.metadata, s.encode⟩
def batchFrame (s : Split) : Bytes := Frame.encode ⟨.batch, (Batch.ofSplit s).encode⟩
def endFrame : Bytes := Frame.encode ⟨.finish, []⟩

/-- Consecutive pieces of at most `n` rows. -/
def chunks {α : Type} (n : Nat) (as : List α) : List (List α) :=
  if as.length = 0 ∨ n = 0 then []
  else as.take n :: chunks n (as.drop n)
termination_by as.length
decreasing_by simp only [List.length_drop]; omega

def batches (s : Split) (batchRows : Nat) : List Split :=
  (chunks batchRows s.rows).map fun rows => { s with rows }

def writeSchema (w : StreamWriter) (s : Schema) : Except SplitError (StreamWriter × Bytes) :=
  match w.schema with
  | some _ => .error (.protocol .metadataTwice)
  | none => .ok ({ w with schema := some s }, schemaFrame s)

def writeSplit (w : StreamWriter) (s : Split) : Except SplitError (StreamWriter × Bytes) :=
  match w.schema with
  | none => .error (.protocol .batchFirst)
  | some m =>
    if s.schema.columns.length ≠ m.columns.length ∨ s.schema.keys.length ≠ m.keys.length then
      .error (.shape (.streamShape s.schema.columns.length s.schema.keys.length m.columns.length
        m.keys.length))
    else
      .ok ({ w with rowsWritten := w.rowsWritten + s.rowCount },
        (batches s w.batchRows).flatMap batchFrame)

def finish (w : StreamWriter) : Except SplitError Bytes :=
  match w.schema with
  | none => .error (.protocol .finishFirst)
  | some _ => .ok endFrame

/-- A complete stream of one split. -/
def ofSplit (s : Split) (batchRows : Nat) : Bytes :=
  schemaFrame s.schema ++ (batches s (max batchRows 1)).flatMap batchFrame ++ endFrame

end StreamWriter
end QueryCluster
