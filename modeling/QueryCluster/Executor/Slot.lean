import QueryCluster.Executor.Error
import QueryCluster.Operator.Error
import QueryCluster.Split.Basic

/-!
# The slot of an executor

An executor holds one node at a time. A node is received, its outputs and then its inputs are set
up, and it runs until it is done or has failed. Every function here is one step that nothing can
interrupt. Setting up the inputs takes two of them, with the calls to other executors in between.
Each reset begins a new epoch, so that what was begun before it can be told and dropped.
-/
namespace QueryCluster

/-- Connections between executors are numbered. -/
abbrev StreamId := Nat

/-- An output and the connection that its reader has opened. -/
structure Egress where
  reader : Location
  stream : Option StreamId := none
  deriving DecidableEq, Repr

structure Slot where
  state : ExecutorState := .idle
  task : Option TaskId := none
  node : Option OperatorNode := none
  egress : List Egress := []
  ingress : List StreamId := []
  results : Option Split := none
  error : Option OperatorError := none
  epoch : Nat := 0
  /-- All connections that are open for the task. -/
  live : List StreamId := []
  deriving DecidableEq, Repr

/-- A node that was started. -/
structure Job where
  epoch : Nat
  node : OperatorNode
  ingress : List StreamId
  egress : List StreamId
  deriving DecidableEq, Repr

/-- The inputs that a node has still to open. -/
structure Dialling where
  epoch : Nat
  task : TaskId
  inputs : List Location
  deriving DecidableEq, Repr

namespace Slot

def requireState (s : Slot) (request : String) (allowed : List ExecutorState) :
    Except ExecutorError Unit :=
  if s.state ∈ allowed then .ok () else .error (.notAllowed request (.state s.state))

def requireTask (s : Slot) (task : TaskId) : Except ExecutorError Unit :=
  if s.task = some task then .ok () else .error (.taskMismatch s.task task)

def reset (s : Slot) : Slot := { epoch := s.epoch + 1 }

def report (s : Slot) : StatusReport := ⟨s.task, s.state, s.error.map OperatorError.message⟩

/-- Takes the node of an instruction that is meant for the executor of this name. -/
def receive (s : Slot) (name : String) (i : Instruction) : Except ExecutorError Slot := do
  let node ← i.node.mapError .instruction
  if node.location.name ≠ name then throw (.wrongExecutor node.location.name name)
  s.requireState "send_instruction" [.idle, .done, .failed]
  return { s.reset with task := some i.task, node := some node, state := .received }

def outputs (s : Slot) : List Location := (s.node.map (·.outputs)).getD []

def inputs (s : Slot) : List Location := (s.node.map (·.inputs)).getD []

def setupWriters (s : Slot) : Except ExecutorError Slot := do
  s.requireState "setup_writers" [.received]
  return { s with egress := s.outputs.map fun reader => { reader }, state := .writersReady }

/-- The first half of setting up the inputs. -/
def beginReaders (s : Slot) : Except ExecutorError Dialling := do
  s.requireState "setup_readers" [.writersReady]
  match s.task with
  | none => throw (.notAllowed "setup_readers" .noTask)
  | some task => return ⟨s.epoch, task, s.inputs⟩

/-- The second half, with the connections that were opened. Only the epoch is looked at again. -/
def commitReaders (s : Slot) (epoch : Nat) (streams : List StreamId) : Except ExecutorError Slot :=
  if s.epoch ≠ epoch then .error (.notAllowed "setup_readers" .aborted)
  else .ok { s with ingress := streams, live := s.live ++ streams, state := .readersReady }

/-- Gives a connection to the first output to this reader that has none. -/
def fill (reader : String) (stream : StreamId) : List Egress → Option (List Egress)
  | [] => none
  | e :: es =>
    if e.reader.name = reader ∧ e.stream = none then some ({ e with stream := some stream } :: es)
    else (fill reader stream es).map (e :: ·)

def attach (s : Slot) (task : TaskId) (reader : Location) (stream : StreamId) :
    Except ExecutorError Slot := do
  s.requireTask task
  s.requireState "open_stream" [.writersReady, .readersReady]
  match fill reader.name stream s.egress with
  | none => throw (.unknownReader reader.name)
  | some egress => return { s with egress, live := s.live ++ [stream] }

/-- Starts the node once every output has its connection. -/
def start (s : Slot) : Except ExecutorError (Slot × Job) := do
  s.requireState "run" [.readersReady]
  if let some e := s.egress.find? (·.stream.isNone) then throw (.unattached e.reader.name)
  match s.node with
  | none => throw (.notAllowed "run" .noNode)
  | some node =>
    let job : Job := ⟨s.epoch, node, s.ingress, s.egress.filterMap (·.stream)⟩
    return ({ s with ingress := [], egress := [], state := .running }, job)

/-- Takes what became of a job, unless the slot has been reset since its start. -/
def complete (s : Slot) (epoch : Nat) (outcome : Except OperatorError (Option Split)) : Slot :=
  if s.epoch ≠ epoch then s
  else match outcome with
    | .ok results => { s with results, state := .done, live := [] }
    | .error e => { s with error := some e, state := .failed, live := [] }

/-- A slot without a task may be aborted in the name of any. -/
def abort (s : Slot) (task : TaskId) : Except ExecutorError Slot := do
  if s.task.isSome then s.requireTask task
  return s.reset

def fetchResults (s : Slot) (task : TaskId) : Except ExecutorError Split := do
  s.requireTask task
  s.requireState "fetch_results" [.done]
  match s.results with
  | some rows => return rows
  | none => throw (.noResults task)

end Slot
end QueryCluster
