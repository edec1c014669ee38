import QueryCluster.Plan.Error
import QueryCluster.Scheduler.Client

/-!
# Why tasks fail and what the scheduler refuses
-/
namespace QueryCluster

inductive TaskStatus where
  | todo
  | doing
  | done
  | failed
  deriving DecidableEq, Repr, Inhabited

def TaskStatus.name : TaskStatus → String
  | .todo => "todo"
  | .doing => "doing"
  | .done => "done"
  | .failed => "failed"

/-- What a finished task has to say for itself. -/
inductive TaskFault where
  | plan (error : PlanError)
  | dispatch (phase : Phase) (executor : String) (error : RpcError)
  /-- An executor that should hold the task holds another or none. -/
  | lost (executor : String) (task : TaskId) (report : StatusReport)
  | failed (executor : String) (error : Option String)
  | unreachable (executor : String) (error : RpcError)
  | noResults (root : String) (error : RpcError)
  /-- Given by whoever finished the task. -/
  | told (message : String)
  deriving DecidableEq, Repr

def TaskFault.message : TaskFault → String
  | .plan error => error.message
  | .dispatch phase executor error => phase.name ++ " failed on " ++ executor ++ ": " ++ error.message
  | .lost executor task report =>
    let holds := match report.task with
      | some other => "task " ++ other.display
      | none => "no task"
    executor ++ ": executor lost task " ++ task.display ++ " (" ++ report.state.name ++ " with " ++
      holds ++ ")"
  | .failed executor error => executor ++ ": " ++ error.getD "failed"
  | .unreachable executor error => executor ++ ": " ++ error.message
  | .noResults root error => "fetching results from " ++ root ++ ": " ++ error.message
  | .told message => message

/-- What a refused call found instead of the status it needs. -/
inductive TaskStanding where
  | status (s : TaskStatus)
  | queuedWithoutPlan
  | doneWithoutRoot
  deriving DecidableEq, Repr

def TaskStanding.name : TaskStanding → String
  | .status s => s.name
  | .queuedWithoutPlan => "queued without a plan"
  | .doneWithoutRoot => "done without a root executor"

inductive SchedulerError where
  | compile (task : TaskId) (error : PlanError)
  | dispatch (task : TaskId) (phase : Phase) (executor : String) (error : RpcError)
  | plan (error : PlanError)
  | unknownTask (task : TaskId)
  | notAllowed (task : TaskId) (found : TaskStanding) (expected : TaskStatus)
  | rpc (error : RpcError)
  deriving DecidableEq, Repr

namespace SchedulerError

def kind : SchedulerError → String
  | compile _ error => "Compile/" ++ error.kind
  | dispatch _ _ _ error => "Dispatch/" ++ error.kind
  | plan error => "Plan/" ++ error.kind
  | unknownTask _ => "UnknownTask"
  | notAllowed _ _ _ => "InvalidState"
  | rpc error => "Rpc/" ++ error.kind

def message : SchedulerError → String
  | compile task error => "task " ++ task.display ++ " failed to compile: " ++ error.message
  | dispatch task phase executor error =>
    "task " ++ task.display ++ ": " ++ phase.name ++ " failed on " ++ executor ++ ": " ++ error.message
  | plan error => "plan error: " ++ error.message
  | unknownTask task => "unknown task " ++ task.display
  | notAllowed task found expected =>
    "task " ++ task.display ++ " is " ++ found.name ++ ", expected " ++ expected.name
  | rpc error => "executor rpc: " ++ error.message

end SchedulerError
end QueryCluster
