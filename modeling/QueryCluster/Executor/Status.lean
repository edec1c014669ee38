import QueryCluster.Graph.Instruction

/-!
# States of an executor
-/
namespace QueryCluster

inductive ExecutorState where
  | idle
  | received
  | writersReady
  | readersReady
  | running
  | done
  | failed
  deriving DecidableEq, Repr, Inhabited

namespace ExecutorState

def name : ExecutorState → String
  | idle => "idle"
  | received => "received"
  | writersReady => "writers_ready"
  | readersReady => "readers_ready"
  | running => "running"
  | done => "done"
  | failed => "failed"

/-- The state as it stands in a rendered report. -/
def literal : ExecutorState → String
  | idle => "Idle"
  | received => "Received"
  | writersReady => "WritersReady"
  | readersReady => "ReadersReady"
  | running => "Running"
  | done => "Done"
  | failed => "Failed"

def all : List ExecutorState :=
  [idle, received, writersReady, readersReady, running, done, failed]

def ofName? (s : String) : Option ExecutorState := all.find? fun x => x.name == s

end ExecutorState

/-- What an executor says about itself; only a failed one has an error. -/
structure StatusReport where
  task : Option TaskId
  state : ExecutorState
  error : Option String
  deriving DecidableEq, Repr, Inhabited

def TaskId.optionalLiteral : Option TaskId → String
  | some id => "Some(" ++ id.display ++ ")"
  | none => "None"

end QueryCluster
