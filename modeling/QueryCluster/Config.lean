import QueryCluster.BaseError
import QueryCluster.Json.Reader

/-!
# Engine settings

Settings start from defaults. Environment variables that cannot be read leave the default as it
is; a settings value that no search could use is refused by `validate`.
-/
namespace QueryCluster

/-- How the calls of one dispatch phase are made: one after another or all at once. -/
inductive DispatchMode where
  | sequential
  | parallel
  deriving DecidableEq, Repr, Inhabited

def DispatchMode.name : DispatchMode → String
  | sequential => "Sequential"
  | parallel => "Parallel"

def DispatchMode.ofName? : String → Option DispatchMode
  | "Sequential" => some sequential
  | "Parallel" => some parallel
  | _ => none

structure Config where
  minParallelism : Nat := 1
  maxParallelism : Nat := 1000
  dispatchMode : DispatchMode := .sequential
  abortOnDispatchFailure : Bool := true
  splitBatchRows : Nat := 10000
  sortBufferLimitRows : Option Nat := none
  dataRoot : String := "./data"
  deriving DecidableEq, Repr, Inhabited

namespace Config

def readCount? (s : String) : Option Nat :=
  (Number.readUnsigned Number.word64Limit s.toList).toOption

def readMode? (s : String) : Option DispatchMode :=
  match Text.lowerAscii s with
  | "parallel" => some .parallel
  | "sequential" => some .sequential
  | _ => none

def readFlag? : String → Option Bool
  | "true" => some true
  | "false" => some false
  | _ => none

def variablePrefix : String := "QUARRY_"

/-- The variables that settings come from. -/
def variableNames : List String :=
  ["MIN_PARALLELISM", "MAX_PARALLELISM", "DISPATCH_MODE", "ABORT_ON_DISPATCH_FAILURE",
    "SPLIT_BATCH_ROWS", "SORT_BUFFER_LIMIT_ROWS", "DATA_ROOT"].map (variablePrefix ++ ·)

/-- Settings under an environment, given as a look-up by variable name. -/
def ofEnvironment (env : String → Option String) : Config :=
  let base : Config := {}
  let read {α : Type} (name : String) (reader : String → Option α) : Option α :=
    (env (variablePrefix ++ name)).bind reader
  { minParallelism := (read "MIN_PARALLELISM" readCount?).getD base.minParallelism
    maxParallelism := (read "MAX_PARALLELISM" readCount?).getD base.maxParallelism
    dispatchMode := (read "DISPATCH_MODE" readMode?).getD base.dispatchMode
    abortOnDispatchFailure :=
      (read "ABORT_ON_DISPATCH_FAILURE" readFlag?).getD base.abortOnDispatchFailure
    splitBatchRows := (read "SPLIT_BATCH_ROWS" readCount?).getD base.splitBatchRows
    sortBufferLimitRows := (read "SORT_BUFFER_LIMIT_ROWS" readCount?).or base.sortBufferLimitRows
    dataRoot := (read "DATA_ROOT" some).getD base.dataRoot }

def fieldNames : List String :=
  ["min_parallelism", "max_parallelism", "dispatch_mode", "abort_on_dispatch_failure",
    "split_batch_rows", "sort_buffer_limit_rows", "data_root"]

/-- Settings as a JSON record; only the sort limit may be left out. -/
def ofJson? (text : String) : Option Config := do
  let f ← Json.record? fieldNames text
  let count (c : Content) : Option Nat := c.natural?.map UInt64.toNat
  return {
    minParallelism := ← f.required 0 count
    maxParallelism := ← f.required 1 count
    dispatchMode := ← f.required 2 (Content.choice? Content.isNull DispatchMode.ofName?)
    abortOnDispatchFailure := ← f.required 3 Content.bool?
    splitBatchRows := ← f.required 4 count
    sortBufferLimitRows := ← f.nullable 5 count
    dataRoot := ← f.required 6 Content.text? }

def validate (c : Config) : Except BaseError Unit :=
  if c.minParallelism = 0 then .error (.config .noParallelism)
  else if c.maxParallelism < c.minParallelism then
    .error (.config (.emptyRange c.maxParallelism c.minParallelism))
  else if c.splitBatchRows = 0 then .error (.config .noBatchRows)
  else .ok ()

end Config
end QueryCluster
