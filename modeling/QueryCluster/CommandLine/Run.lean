import QueryCluster.CommandLine.Command
import QueryCluster.CommandLine.Explain
import QueryCluster.CommandLine.Submit
import QueryCluster.Tables.Csv
import QueryCluster.Tables.CsvTables

/-!
# Running commands

A command sees its host and a network. It ends with a code and what it has printed, or it leaves an
executor in the network that serves from then on.
-/
namespace QueryCluster.CommandLine

structure Host where
  environment : String → Option String
  /-- The bytes of the file at a path. -/
  file : String → Except FileFault Bytes
  /-- The tables below a root, read in splits of at most so many rows. -/
  tables : (root : String) → (batchRows : Nat) → TableStore

/-- The host of these files. -/
def Host.ofFiles (environment : String → Option String) (files : FileTree) : Host where
  environment
  file path := do
    match files.file? (← files.locate path) with
    | some bytes => return bytes
    | none => throw .isDirectory
  tables root batchRows := CsvTables.store { files, root, batchRows }

structure Exit where
  code : UInt32
  output : String := ""
  error : String := ""
  deriving DecidableEq, Repr

def usage : String :=
  "Commands:\n" ++
  "  executor --name NAME --listen HOST:PORT [--data-root DIR] [engine options]\n" ++
  "  submit --pipeline FILE --executors NAME=HOST:PORT,... [--catalog NAME] [--schema NAME]\n" ++
  "         [--priority N] [--poll-ms N] [--timeout-secs N] [engine options]\n" ++
  "  explain --pipeline FILE [--parallelism N] [--catalog NAME] [--schema NAME]\n" ++
  "Engine options:\n" ++
  "  --min-parallelism N --max-parallelism N --dispatch-mode sequential|parallel\n" ++
  "  --no-abort-on-failure --batch-rows N --sort-limit N\n"

def Exit.ofRefusal : Refusal → Exit
  | .help => { code := 0, output := usage }
  | .misuse => { code := 2, error := usage }

def Exit.ofResult : Except CommandError String → Exit
  | .ok output => { code := 0, output }
  | .error e => { code := 1, error := "Error: " ++ e.message ++ "\n" }

inductive Outcome where
  | exited (e : Exit)
  | serving

/-- The settings of the environment under the options. -/
def EngineOptions.over (o : EngineOptions) (base : Config) : Config :=
  { base with
    minParallelism := o.minParallelism.getD base.minParallelism
    maxParallelism := o.maxParallelism.getD base.maxParallelism
    dispatchMode := o.dispatchMode.getD base.dispatchMode
    abortOnDispatchFailure := base.abortOnDispatchFailure && !o.noAbortOnFailure
    splitBatchRows := o.batchRows.getD base.splitBatchRows
    sortBufferLimitRows := o.sortLimit.or base.sortBufferLimitRows }

namespace Host

def config (h : Host) (o : EngineOptions) : Except CommandError Config := do
  let config := o.over (Config.ofEnvironment h.environment)
  config.validate.mapError .base
  return config

def text (h : Host) (path : String) : Except CommandError String := do
  match Bytes.toString? (← (h.file path).mapError .file) with
  | some text => return text
  | none => throw .notText

def location (s : String) : Except CommandError Location := (Location.read s).mapError .base

/-- The executor of a command and its place in a network. -/
def worker (h : Host) (c : ExecutorCommand) : Except CommandError Worker := do
  let config ← h.config c.engine
  let location ← location (c.name ++ "=" ++ c.listen)
  let tables := h.tables (c.dataRoot.getD config.dataRoot) config.splitBatchRows
  return { location, workplace := ⟨tables, config.splitBatchRows, config.sortBufferLimitRows⟩ }

def execute (h : Host) (c : ExecutorCommand) (n : Network) : Except CommandError Network := do
  (n.listen (← h.worker c)).mapError .executor

def submission (h : Host) (c : SubmitCommand) : Except CommandError Submission := do
  let config ← h.config c.engine
  let text ← h.text c.query.pipeline
  let executors ← c.executors.mapM location
  return { config, executors, text, catalog := c.query.catalog, schema := c.query.schema
           priority := c.priority }

def submit (h : Host) (c : SubmitCommand) (n : Network) : Except CommandError String × Network :=
  match h.submission c with
  | .error e => (.error e, n)
  | .ok s =>
    let (rows, n) := s.run n
    (rows.map Csv.writeSplit, n)

def explain (h : Host) (c : ExplainCommand) : Except CommandError String := do
  let text ← h.text c.query.pipeline
  let plan ← (Pipeline.compile c.query.catalog c.query.schema text).mapError .plan
  (explanation plan c.parallelism).mapError .plan

def perform (h : Host) (n : Network) : Command → Outcome × Network
  | .executor c => match h.execute c n with
    | .ok n => (.serving, n)
    | .error e => (.exited (.ofResult (.error e)), n)
  | .submit c => let (r, n) := h.submit c n; (.exited (.ofResult r), n)
  | .explain c => (.exited (.ofResult (h.explain c)), n)

/-- Runs the command that stands in these words. -/
def run (h : Host) (n : Network) (words : List String) : Outcome × Network :=
  match Command.read h.environment words with
  | .ok c => h.perform n c
  | .error r => (.exited (.ofRefusal r), n)

end Host
end QueryCluster.CommandLine
