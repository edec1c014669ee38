import QueryCluster.Executor.Error
import QueryCluster.Operator.Error
import QueryCluster.Scheduler.Error

/-!
# Why commands fail
-/
namespace QueryCluster.CommandLine

inductive CommandError where
  | base (error : BaseError)
  | file (fault : FileFault)
  /-- A pipeline whose bytes are no text. -/
  | notText
  | plan (error : PlanError)
  | executor (error : ExecutorError)
  | scheduler (error : SchedulerError)
  | notQueued
  | shortage (required free : Nat)
  | timeout
  | failed (task : TaskId) (fault : TaskFault)
  deriving DecidableEq, Repr

def CommandError.message : CommandError → String
  | .base error => error.message
  | .file fault => fault.message
  | .notText => "stream did not contain valid UTF-8"
  | .plan error => error.message
  | .executor error => error.message
  | .scheduler error => error.message
  | .notQueued => "task was not queued"
  | .shortage required free =>
    "pipeline needs " ++ toString required ++ " executors, " ++ toString free ++ " available"
  | .timeout => "timed out waiting for the task"
  | .failed task fault => "task " ++ task.display ++ " failed: " ++ fault.message

end QueryCluster.CommandLine
