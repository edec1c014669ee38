import QueryCluster.CommandLine.Error
import QueryCluster.Scheduler.Remote

/-!
# Submitting a pipeline

One task on a scheduler of its own, from its admission to its rows. In a network where all jobs that
can run have run, a task that the first poll does not end is ended by none: it times out.
-/
namespace QueryCluster.CommandLine

structure Submission where
  config : Config
  executors : List Location
  text : String
  catalog : String
  schema : String
  priority : Int

namespace Submission

/-- Gives up a task that takes too long. -/
def giveUp (task : TaskId) (w : World Network) : World Network :=
  let executors := ((w.scheduler.find? task).map (·.executors)).getD []
  ((World.abortAll Network.client task executors w).finishTask task false (some "timed out")).2

/-- The rows of a task that has ended. -/
def collect (task : TaskId) (w : World Network) : Except CommandError Split × World Network :=
  match (w.scheduler.find? task).bind (·.error) with
  | some fault => (.error (.failed task fault), w)
  | none =>
    let (rows, w) := w.fetchResults Network.client task
    (rows.mapError .scheduler, w)

/-- Waits for a task that is running. -/
def await (task : TaskId) (w : World Network) : Except CommandError Split × World Network :=
  let (ended, w) := w.pollRunning Network.client
  if ended.contains task then collect task w else (.error .timeout, giveUp task w)

/-- Starts the task that was queued. -/
def start (s : Submission) (task : TaskId) (w : World Network) :
    Except CommandError Split × World Network :=
  match w.runTask Network.client s.config (fun _ => []) with
  | (.error e, w) => (.error (.scheduler e), w)
  | (.ok .idle, w) => (.error .notQueued, w)
  | (.ok (.waiting _ required free), w) => (.error (.shortage required free), w)
  | (.ok (.dispatched ..), w) => await task w

/-- Queues the task and starts it. -/
def perform (s : Submission) (w : World Network) : Except CommandError Split × World Network :=
  match w.addTask 0 s.text s.catalog s.schema s.priority with
  | (.error e, w) => (.error (.scheduler e), w)
  | (.ok task, w) => s.start task w

def run (s : Submission) (n : Network) : Except CommandError Split × Network :=
  let (rows, w) := s.perform { topology := .ofLocations s.executors, outside := n }
  (rows, w.outside)

end Submission
end QueryCluster.CommandLine
