import QueryCluster.Scheduler.State

/-!
# Running tasks

Admission, start, polling and results, as steps on the scheduler's state with calls to executors
between them. The world of the calls holds the state too, for others may act on it in the meantime.
-/
namespace QueryCluster

structure World (κ : Type) where
  scheduler : SchedulerState := {}
  topology : Topology := []
  /-- All that is neither scheduler nor topology. -/
  outside : κ

/-- How a running task stands. -/
inductive Verdict where
  | running
  | done
  | failed (fault : TaskFault)
  deriving DecidableEq, Repr

/-- What one executor's answer says about a task. -/
def Verdict.ofAnswer (task : TaskId) (executor : String) : Except RpcError StatusReport → Verdict
  | .error e => .failed (.unreachable executor e)
  | .ok report =>
    if report.task ≠ some task then .failed (.lost executor task report)
    else match report.state with
      | .done => .done
      | .failed => .failed (.failed executor report.error)
      | _ => .running

namespace World

variable {κ : Type}

def free (w : World κ) : List Location := w.scheduler.free w.topology

def onScheduler (w : World κ) (s : SchedulerState) : World κ := { w with scheduler := s }

/-- What a query needs: its plan, and the executors for it without parallelism. -/
def compile (query catalog schema : String) : Except PlanError (Plan × Nat) := do
  let plan ← Pipeline.compile catalog schema query
  let needed ← (plan.executorCount 1).mapError .invalid
  return (plan, needed.toNat)

/-- Admits a query at a time. One that does not compile has failed. -/
def addTask (w : World κ) (time : Nat) (query catalog schema : String) (priority : Int) :
    Except SchedulerError TaskId × World κ :=
  let (id, s) := w.scheduler.takeId
  let task : Task := { id, query, catalog, schema, priority, committed := time }
  let (r, s) := s.enqueue task (compile query catalog schema)
  (r, w.onScheduler s)

variable (c : Client (World κ))

/-- Tells executors to give a task up. What they answer is of no concern. -/
def abortAll (task : TaskId) : List Location → World κ → World κ
  | [], w => w
  | l :: ls, w => abortAll task ls (c.abort l task w).2

/-- Tries to start the first task of the queue. `order` orders the calls of parallel phases. -/
def runTask (config : Config) (order : Phase → List Nat) (w : World κ) :
    Except SchedulerError RunOutcome × World κ :=
  match w.scheduler.startTask config w.free with
  | (.error e, s) => (.error e, w.onScheduler s)
  | (.ok (.inl outcome), s) => (.ok outcome, w.onScheduler s)
  | (.ok (.inr start), s) =>
    match c.dispatch config.dispatchMode order start.nodes (w.onScheduler s) with
    | (.ok _, w) =>
      (.ok (.dispatched start.task start.parallelism start.nodes.length),
        w.onScheduler (w.scheduler.markDispatched start.task))
    | (.error f, w) =>
      let w := if config.abortOnDispatchFailure then abortAll c start.task f.contacted w else w
      let fault := TaskFault.dispatch f.phase f.location.name f.error
      (.error (.dispatch start.task f.phase f.location.name f.error),
        w.onScheduler (w.scheduler.failDispatch start.task fault config.abortOnDispatchFailure))

def finishTask (w : World κ) (task : TaskId) (success : Bool) (message : Option String) :
    Except SchedulerError Unit × World κ :=
  match w.scheduler.finish task success (message.map .told) none with
  | .ok s => (.ok (), w.onScheduler s)
  | .error e => (.error e, w)

def releaseExecutors (w : World κ) (task : TaskId) : Nat × World κ :=
  let (count, s) := w.scheduler.release task
  (count, w.onScheduler s)

/-- Asks executors in order, up to the first that speaks against the task. -/
def askAll (task : TaskId) : Verdict → List Location → World κ → Verdict × World κ
  | verdict, [], w => (verdict, w)
  | verdict, l :: ls, w =>
    let (answer, w) := c.status l w
    match Verdict.ofAnswer task l.name answer with
    | .done => askAll task verdict ls w
    | .running => askAll task .running ls w
    | .failed fault => (.failed fault, w)

/-- The verdict on a task, and its rows if it is done. -/
def judge (r : Running) (w : World κ) : Verdict × Option Split × World κ :=
  match askAll c r.task .done r.executors w, r.root with
  | (.done, w), some root =>
    match c.results root r.task w with
    | (.ok rows, w) => (.done, some rows, w)
    | (.error e, w) => (.failed (.noResults root.name e), none, w)
  | (verdict, w), _ => (verdict, none, w)

/-- Ends a task that is done or has failed; tells whether it did. -/
def pollTask (r : Running) (w : World κ) : Bool × World κ :=
  let (verdict, rows, w) := judge c r w
  let close (success : Bool) (error : Option TaskFault) : Bool × World κ :=
    let w := abortAll c r.task r.executors w
    match w.scheduler.finish r.task success error rows with
    | .ok s => (true, w.onScheduler s)
    | .error _ => (false, w)
  match verdict with
  | .running => (false, w)
  | .done => close true none
  | .failed fault => close false (some fault)

def pollEach : List Running → World κ → List TaskId × World κ
  | [], w => ([], w)
  | r :: rs, w =>
    let (ended, w) := pollTask c r w
    let (ids, w) := pollEach rs w
    (if ended then r.task :: ids else ids, w)

/-- Looks after all running tasks; gives those that it ended. -/
def pollRunning (w : World κ) : List TaskId × World κ := pollEach c w.scheduler.running w

def fetchResults (task : TaskId) (w : World κ) : Except SchedulerError Split × World κ :=
  match w.scheduler.locateResults task with
  | .error e => (.error e, w)
  | .ok (.inl rows) => (.ok rows, w)
  | .ok (.inr root) =>
    match c.results root task w with
    | (.error e, w) => (.error (.rpc e), w)
    | (.ok rows, w) => (.ok rows, w.onScheduler (w.scheduler.storeResults task rows))

end World
end QueryCluster
