import QueryCluster.Scheduler.Run

/-!
# A client that records

No executor is called. Each call is noted and answered as was laid down before; an executor reports
to be running what it was last sent unless it is told otherwise.
-/
namespace QueryCluster

inductive Call where
  | phase (p : Phase) (executor : String)
  | abort (executor : String) (task : TaskId)
  | status (executor : String)
  | results (executor : String) (task : TaskId)
  deriving DecidableEq, Repr

def Call.display : Call → String
  | phase p executor => p.name ++ " " ++ executor
  | abort executor task => "abort " ++ executor ++ " " ++ toString task
  | status executor => "status " ++ executor
  | results executor task => "fetch_results " ++ executor ++ " " ++ toString task

/-- Puts the last of two calls in front as long as they are of one phase and out of order. -/
def Call.insertByName (c : Call) : List Call → List Call
  | [] => [c]
  | d :: rest =>
    match c, d with
    | phase p a, phase q b => if p = q ∧ b < a then d :: insertByName c rest else c :: d :: rest
    | _, _ => c :: d :: rest

/-- Calls with those of one phase ordered by name, for they are made in no order of their own. -/
def Call.sortPhases (calls : List Call) : List Call := calls.foldr Call.insertByName []

structure Recorder where
  calls : List Call := []
  refusals : List (Phase × String) := []
  reports : List (String × StatusReport) := []
  results : List (String × Split) := []
  assigned : List (String × TaskId) := []
  /-- Executors that close the connection when asked for their status. -/
  silent : List String := []
  /-- Executors that refuse to abort. -/
  stubborn : List String := []
  /-- A task that someone else finishes at its next abort, and how. -/
  race : Option (TaskId × Bool × Option String) := none
  deriving DecidableEq, Repr

namespace Recorder

def note (r : Recorder) (c : Call) : Recorder := { r with calls := r.calls ++ [c] }

def setState (r : Recorder) (executor : String) (state : ExecutorState) (error : Option String) :
    Recorder :=
  { r with reports := (executor, ⟨none, state, error⟩) :: r.reports }

def setAll (r : Recorder) (executors : List Location) (state : ExecutorState) : Recorder :=
  executors.foldl (fun r l => r.setState l.name state none) r

/-- An executor comes back empty. -/
def restart (r : Recorder) (executor : String) : Recorder :=
  { r with assigned := r.assigned.filter (·.1 ≠ executor) }.setState executor .idle none

def setResults (r : Recorder) (executor : String) (rows : Split) : Recorder :=
  { r with results := (executor, rows) :: r.results }

def report (r : Recorder) (executor : String) : StatusReport :=
  { (r.reports.lookup executor).getD ⟨none, .running, none⟩ with task := r.assigned.lookup executor }

abbrev Answer (α : Type) := World Recorder → Except RpcError α × World Recorder

def perform (phase : Phase) (l : Location) (i : Instruction) : Answer Unit := fun w =>
  let r := w.outside.note (.phase phase l.name)
  if (phase, l.name) ∈ r.refusals then
    (.error (.remote (phase.name ++ " refused by " ++ l.name)), { w with outside := r })
  else if phase = .sendInstruction then
    (.ok (), { w with outside := { r with assigned := (l.name, i.task) :: r.assigned } })
  else (.ok (), { w with outside := r })

/-- The one who races for the task comes first. -/
def race? (task : TaskId) (w : World Recorder) : World Recorder :=
  match w.outside.race with
  | some (t, success, message) =>
    if t = task then
      ({ w with outside := { w.outside with race := none } }.finishTask task success message).2
    else w
  | none => w

def abort (l : Location) (task : TaskId) : Answer Unit := fun w =>
  let w := race? task w
  let w := { w with outside := w.outside.note (.abort l.name task) }
  (if l.name ∈ w.outside.stubborn then .error (.remote "abort refused") else .ok (), w)

def status (l : Location) : Answer StatusReport := fun w =>
  let r := w.outside.note (.status l.name)
  (if l.name ∈ r.silent then .error .closed else .ok (r.report l.name), { w with outside := r })

def fetch (l : Location) (task : TaskId) : Answer Split := fun w =>
  let r := w.outside.note (.results l.name task)
  let rows := match r.results.lookup l.name with
    | some rows => .ok rows
    | none => .error (.remote ("no results on " ++ l.name))
  (rows, { w with outside := r })

def client : Client (World Recorder) := { perform, abort, status, results := fetch }

end Recorder
end QueryCluster
