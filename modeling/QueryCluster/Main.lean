import QueryCluster.CommandLine.Run

/-!
# The program

Reads the environment and the pipeline of the command, runs it and prints what it says. The network is
that of this process alone: an executor serves until the input ends, and a submission reaches none.
-/
namespace QueryCluster.CommandLine

def faultOf : IO.Error → FileFault
  | .inappropriateType _ code _ => if code = 21 then .isDirectory else .notDirectory
  | _ => .missing

/-- The variables of the environment that commands look at. -/
def readEnvironment : IO (List (String × String)) :=
  (executorsVariable :: Config.variableNames).filterMapM fun name => do
    return (← IO.getEnv name).map fun value => (name, value)

def readFile (path : String) : IO (Except FileFault Bytes) := do
  try return .ok (← IO.FS.readBinFile path).toList
  catch e => return .error (faultOf e)

/-- The file that a command line is about, if it is about one. -/
def readPipeline (environment : String → Option String) (args : List String) :
    IO (Except FileFault Bytes) :=
  match (Command.read environment args).toOption.bind Command.pipeline? with
  | some path => readFile path
  | none => return .error .missing

def runProgram (args : List String) : IO UInt32 := do
  let values ← readEnvironment
  let environment (name : String) : Option String := values.lookup name
  let contents ← readPipeline environment args
  let host := { Host.ofFiles environment [] with file := fun _ => contents }
  match (host.run {} args).1 with
  | .serving =>
    discard (← IO.getStdin).readToEnd
    return 0
  | .exited e =>
    IO.print e.output
    IO.eprint e.error
    return e.code

end QueryCluster.CommandLine

def main (args : List String) : IO UInt32 := QueryCluster.CommandLine.runProgram args
