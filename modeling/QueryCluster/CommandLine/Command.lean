import QueryCluster.CommandLine.Options
import QueryCluster.Config

/-!
# Commands

There are three commands: to serve an executor, to submit a pipeline to executors, and to explain a
pipeline. Each has its own options; those of the engine override the environment.
-/
namespace QueryCluster.CommandLine

/-- Settings of the engine that stand on the command line. -/
structure EngineOptions where
  minParallelism : Option Nat := none
  maxParallelism : Option Nat := none
  dispatchMode : Option DispatchMode := none
  noAbortOnFailure : Bool := false
  batchRows : Option Nat := none
  sortLimit : Option Nat := none
  deriving DecidableEq, Repr

/-- All that options can say. -/
structure Settings where
  name : Option String := none
  listen : Option String := none
  dataRoot : Option String := none
  pipeline : Option String := none
  executors : List String := []
  catalog : String := "default"
  schema : String := "public"
  priority : Int := 0
  parallelism : Nat := 2
  pollMillis : Nat := 100
  timeoutSeconds : Nat := 600
  engine : EngineOptions := {}
  deriving DecidableEq, Repr

/-- A pipeline and what its tables belong to. -/
structure Query where
  /-- The path of its text. -/
  pipeline : String
  catalog : String
  schema : String
  deriving DecidableEq, Repr

structure ExecutorCommand where
  name : String
  listen : String
  dataRoot : Option String
  engine : EngineOptions
  deriving DecidableEq, Repr

structure SubmitCommand where
  query : Query
  executors : List String
  priority : Int
  pollMillis : Nat
  timeoutSeconds : Nat
  engine : EngineOptions
  deriving DecidableEq, Repr

structure ExplainCommand where
  query : Query
  parallelism : Nat
  deriving DecidableEq, Repr

inductive Command where
  | executor (c : ExecutorCommand)
  | submit (c : SubmitCommand)
  | explain (c : ExplainCommand)
  deriving DecidableEq, Repr

/-- The path of the pipeline that a command is about. -/
def Command.pipeline? : Command → Option String
  | .executor _ => none
  | .submit c => some c.query.pipeline
  | .explain c => some c.query.pipeline

/-! ## Options -/

def readMode? : String → Option DispatchMode
  | "sequential" => some .sequential
  | "parallel" => some .parallel
  | _ => none

def readCount? (s : String) : Option Nat :=
  (Number.readUnsigned Number.word64Limit s.toList).toOption

def readPriority? (s : String) : Option Int :=
  (Number.readSigned Number.int32Limit s.toList).toOption

/-- Texts between commas, as many as there are commas and one more. -/
def splitList (s : String) : List String := s.splitOn ","

def Settings.withEngine (s : Settings) (f : EngineOptions → EngineOptions) : Settings :=
  { s with engine := f s.engine }

def countChoice (name : String) (put : Nat → Settings → Settings) : Choice Settings where
  name
  set value s := (readCount? value).map (put · s)

def textChoice (name : String) (put : String → Settings → Settings) : Choice Settings where
  name
  set value s := some (put value s)

def engineChoices : List (Choice Settings) :=
  [ countChoice "min-parallelism" fun n s => s.withEngine ({ · with minParallelism := some n }),
    countChoice "max-parallelism" fun n s => s.withEngine ({ · with maxParallelism := some n }),
    { name := "dispatch-mode"
      set := fun value s =>
        (readMode? value).map fun m => s.withEngine ({ · with dispatchMode := some m }) },
    { name := "no-abort-on-failure"
      takesValue := false
      set := fun _ s => some (s.withEngine ({ · with noAbortOnFailure := true })) },
    countChoice "batch-rows" fun n s => s.withEngine ({ · with batchRows := some n }),
    countChoice "sort-limit" fun n s => s.withEngine ({ · with sortLimit := some n }) ]

/-- The path of a pipeline is not empty. -/
def queryChoices : List (Choice Settings) :=
  [ { name := "pipeline"
      letter := some 'p'
      set := fun value s => if value.isEmpty then none else some { s with pipeline := some value } },
    textChoice "catalog" fun catalog s => { s with catalog },
    textChoice "schema" fun schema s => { s with schema } ]

def executorChoices : List (Choice Settings) :=
  [ textChoice "name" fun name s => { s with name := some name },
    textChoice "listen" fun listen s => { s with listen := some listen },
    textChoice "data-root" fun root s => { s with dataRoot := some root } ] ++ engineChoices

def submitChoices : List (Choice Settings) :=
  queryChoices ++
  [ { name := "executors"
      repeatable := true
      set := fun value s => some { s with executors := s.executors ++ splitList value } },
    { name := "priority"
      set := fun value s => (readPriority? value).map fun priority => { s with priority } },
    countChoice "poll-ms" fun n s => { s with pollMillis := n },
    countChoice "timeout-secs" fun n s => { s with timeoutSeconds := n } ] ++ engineChoices

def explainChoices : List (Choice Settings) :=
  queryChoices ++ [countChoice "parallelism" fun n s => { s with parallelism := n }]

/-! ## Reading -/

def gather (choices : List (Choice Settings)) (words : List String) : Except Refusal Settings :=
  (scan choices { settings := {} } words).map (·.settings)

/-- A value that a command cannot do without. -/
def needed {α : Type} : Option α → Except Refusal α
  | some a => .ok a
  | none => .error .misuse

def Settings.query (s : Settings) : Except Refusal Query := do
  return ⟨← needed s.pipeline, s.catalog, s.schema⟩

def readExecutor (words : List String) : Except Refusal ExecutorCommand := do
  let s ← gather executorChoices words
  return ⟨← needed s.name, ← needed s.listen, s.dataRoot, s.engine⟩

/-- The variable that gives the executors of a submission if no option does. -/
def executorsVariable : String := "QUARRY_EXECUTORS"

def readSubmit (environment : String → Option String) (words : List String) :
    Except Refusal SubmitCommand := do
  let s ← gather submitChoices words
  let executors ←
    if s.executors.isEmpty then (needed (environment executorsVariable)).map splitList
    else pure s.executors
  return ⟨← s.query, executors, s.priority, s.pollMillis, s.timeoutSeconds, s.engine⟩

def readExplain (words : List String) : Except Refusal ExplainCommand := do
  let s ← gather explainChoices words
  return ⟨← s.query, s.parallelism⟩

def Command.names : List String := ["executor", "submit", "explain", "help"]

def Command.read (environment : String → Option String) :
    List String → Except Refusal Command
  | "executor" :: words => (readExecutor words).map .executor
  | "submit" :: words => (readSubmit environment words).map .submit
  | "explain" :: words => (readExplain words).map .explain
  | ["help"] => .error .help
  | ["help", name] => .error (if Command.names.contains name then .help else .misuse)
  | words => (gather [] words).bind fun _ => .error .misuse

end QueryCluster.CommandLine
