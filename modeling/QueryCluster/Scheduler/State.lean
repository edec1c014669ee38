import QueryCluster.Graph.Build
import QueryCluster.Pipeline.Compile
import QueryCluster.Scheduler.Dispatch
import QueryCluster.Scheduler.Task
import QueryCluster.Split.Basic

/-!
# The scheduler's state

Four lists of tasks, the executors that tasks hold, and the rows of finished tasks. Every function
here is one step that nothing can interrupt; calls to executors lie between such steps.
-/
namespace QueryCluster

/-- An executor as the scheduler knows it; any status but zero keeps it from being used. -/
structure ExecutorInfo where
  location : Location
  status : Int := 0
  deriving DecidableEq, Repr

abbrev Topology := List ExecutorInfo

namespace Topology

def ofLocations (l : List Location) : Topology := l.map fun location => { location }

/-- Sets the status of the first executor of this name, if there is one. -/
def setStatus? (name : String) (status : Int) : Topology → Option Topology
  | [] => none
  | e :: es =>
    if e.location.name = name then some ({ e with status } :: es)
    else (setStatus? name status es).map (e :: ·)

end Topology

structure SchedulerState where
  todos : TaskList := []
  doings : TaskList := []
  dones : TaskList := []
  fails : TaskList := []
  /-- Names of executors, each with the task that holds it. -/
  allocated : List (String × TaskId) := []
  results : List (TaskId × Split) := []
  nextId : TaskId := 0
  deriving DecidableEq, Repr

/-- What comes of trying to start a task. -/
inductive RunOutcome where
  | idle
  | waiting (task : TaskId) (required free : Nat)
  | dispatched (task : TaskId) (parallelism executors : Nat)
  deriving DecidableEq, Repr

/-- A task that has got its executors. -/
structure Start where
  task : TaskId
  parallelism : Nat
  nodes : List Assignment
  deriving DecidableEq, Repr

/-- What a poll looks at. -/
structure Running where
  task : TaskId
  executors : List Location
  root : Option Location
  deriving DecidableEq, Repr

namespace SchedulerState

def find? (s : SchedulerState) (id : TaskId) : Option Task :=
  (s.todos.get? id).or <| (s.doings.get? id).or <| (s.dones.get? id).or (s.fails.get? id)

def free (s : SchedulerState) (executors : Topology) : List Location :=
  (executors.filter fun e => e.status = 0 ∧ (s.allocated.lookup e.location.name).isNone).map (·.location)

/-- Gives executors to a task, whoever held them. -/
def allocate (s : SchedulerState) (task : TaskId) (locations : List Location) : SchedulerState :=
  let hold (held : List (String × TaskId)) (l : Location) : List (String × TaskId) :=
    (l.name, task) :: held.filter (·.1 ≠ l.name)
  { s with allocated := locations.foldl hold s.allocated }

/-- Takes back all executors of a task and counts them. -/
def release (s : SchedulerState) (task : TaskId) : Nat × SchedulerState :=
  let kept := s.allocated.filter (·.2 ≠ task)
  (s.allocated.length - kept.length, { s with allocated := kept })

def storeResults (s : SchedulerState) (task : TaskId) (rows : Split) : SchedulerState :=
  { s with results := (task, rows) :: s.results.filter (·.1 ≠ task) }

def notDoing (s : SchedulerState) (id : TaskId) : SchedulerError :=
  match s.find? id with
  | some t => .notAllowed id (.status t.status) .doing
  | none => .unknownTask id

/-- Ends a running task and frees its executors. -/
def finish (s : SchedulerState) (id : TaskId) (success : Bool) (error : Option TaskFault)
    (rows : Option Split) : Except SchedulerError SchedulerState :=
  match s.doings.take? id with
  | none => .error (s.notDoing id)
  | some (task, doings) =>
    let s := { s with doings }
    let s :=
      if success then { s with dones := s.dones.push { task with error, status := .done } }
      else { s with fails := s.fails.push { task with error, status := .failed } }
    let s := match rows with
      | some rows => s.storeResults id rows
      | none => s
    .ok (s.release id).2

def takeId (s : SchedulerState) : TaskId × SchedulerState :=
  (s.nextId + 1, { s with nextId := s.nextId + 1 })

/-- Queues a task that compiled and files one that did not. -/
def enqueue (s : SchedulerState) (task : Task) (compiled : Except PlanError (Plan × Nat)) :
    Except SchedulerError TaskId × SchedulerState :=
  match compiled with
  | .ok (plan, executorNumber) =>
    (.ok task.id, { s with todos := s.todos.insert { task with plan := some plan, executorNumber } })
  | .error e =>
    (.error (.compile task.id e),
      { s with fails := s.fails.push { task with status := .failed, error := some (.plan e) } })

def assignments (task : Task) (g : Graph) : List Assignment :=
  g.nodes.map fun n => ⟨n.location, Instruction.ofNode task.id task.catalog task.schema n⟩

/-- Starts the first task of the queue if enough executors are free. -/
def startTask (s : SchedulerState) (config : Config) (free : List Location) :
    Except SchedulerError (RunOutcome ⊕ Start) × SchedulerState :=
  match s.todos with
  | [] => (.ok (.inl .idle), s)
  | task :: todos =>
    let waiting := RunOutcome.waiting task.id task.executorNumber free.length
    if free.length < task.executorNumber then (.ok (.inl waiting), s)
    else match task.plan with
      | none => (.error (.notAllowed task.id .queuedWithoutPlan .todo), s)
      | some plan =>
        match plan.maxParallelism (.ofNat free.length) config.minParallelism config.maxParallelism with
        | none => (.ok (.inl waiting), s)
        | some p =>
          let s := { s with todos }
          match (plan.bind (.ofNat p) free).1 with
          | .error e =>
            (.error (.plan e),
              { s with fails := s.fails.push { task with status := .failed, error := some (.plan e) } })
          | .ok g =>
            let nodes := assignments task g
            let executors := nodes.map (·.location)
            let s := s.allocate task.id executors
            let task := { task with
              status := .doing
              parallelism := p
              executorNumber := nodes.length
              executors
              root := some g.root.location }
            (.ok (.inr ⟨task.id, p, nodes⟩), { s with doings := s.doings.push task })

def markDispatched (s : SchedulerState) (id : TaskId) : SchedulerState :=
  { s with doings := s.doings.update ({ · with dispatched := true }) id }

/-- Files a task whose dispatch failed, unless it has left the running ones in the meantime. -/
def failDispatch (s : SchedulerState) (id : TaskId) (fault : TaskFault) (free : Bool) :
    SchedulerState :=
  let s := match s.doings.take? id with
    | some (task, doings) =>
      { s with doings, fails := s.fails.push { task with status := .failed, error := some fault } }
    | none => s
  if free then (s.release id).2 else s

/-- The tasks whose dispatch is complete. -/
def running (s : SchedulerState) : List Running :=
  (s.doings.filter (·.dispatched)).map fun t => ⟨t.id, t.executors, t.root⟩

/-- The stored rows of a task, or the executor to fetch them from. -/
def locateResults (s : SchedulerState) (id : TaskId) : Except SchedulerError (Split ⊕ Location) :=
  match s.results.lookup id with
  | some rows => .ok (.inl rows)
  | none =>
    match s.find? id with
    | none => .error (.unknownTask id)
    | some task =>
      if task.status ≠ .done then .error (.notAllowed id (.status task.status) .done)
      else match task.root with
        | none => .error (.notAllowed id .doneWithoutRoot .done)
        | some root => .ok (.inr root)

end SchedulerState
end QueryCluster
