import QueryCluster.Executor.Status
import QueryCluster.Message.Frame

/-!
# Faults of executors
-/
namespace QueryCluster

/-- What a refused request found instead of the state it needs. -/
inductive Standing where
  | state (s : ExecutorState)
  /-- The task was given up in the meantime. -/
  | aborted
  | noTask
  | noNode
  /-- A connection that carries requests only. -/
  | control
  deriving DecidableEq, Repr

def Standing.name : Standing → String
  | .state s => s.name
  | .aborted => "aborted"
  | .noTask => "no task"
  | .noNode => "no node"
  | .control => "control connection"

inductive ExecutorError where
  | notAllowed (request : String) (found : Standing)
  | instruction (error : PlanError)
  | wrongExecutor (expected actual : String)
  | taskMismatch (held : Option TaskId) (requested : TaskId)
  | unknownReader (name : String)
  | unattached (name : String)
  | peer (location : Location) (error : RpcError)
  | noResults (task : TaskId)
  | io
  | rpc (error : RpcError)
  | split (error : SplitError)
  deriving DecidableEq, Repr

namespace ExecutorError

def kind : ExecutorError → String
  | notAllowed _ _ => "InvalidState"
  | instruction error => "Instruction/" ++ error.kind
  | wrongExecutor _ _ => "WrongExecutor"
  | taskMismatch _ _ => "TaskMismatch"
  | unknownReader _ => "UnknownReader"
  | unattached _ => "Unattached"
  | peer _ error => "Peer/" ++ error.kind
  | noResults _ => "NoResults"
  | io => "Io"
  | rpc error => "Rpc/" ++ error.kind
  | split error => "Split/" ++ error.kind

def message : ExecutorError → String
  | notAllowed request found => request ++ " not allowed in state " ++ found.name
  | instruction error => "instruction: " ++ error.message
  | wrongExecutor expected actual => "instruction for " ++ expected ++ " delivered to " ++ actual
  | taskMismatch held requested =>
    "executor holds task " ++ TaskId.optionalLiteral held ++ ", request names " ++ requested.display
  | unknownReader name => "no output slot for reader " ++ name
  | unattached name => "output to " ++ name ++ " was never attached"
  | peer location error => "input " ++ location.display ++ ": " ++ error.message
  | noResults task => "no results held for " ++ task.display
  | io => "executor io"
  | rpc error => error.message
  | split error => error.message

end ExecutorError
end QueryCluster
