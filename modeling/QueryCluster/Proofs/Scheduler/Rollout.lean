import QueryCluster.Proofs.Executor.Slots
import QueryCluster.Scheduler.Dispatch

/-!
# Dispatch, one step at a time

The calls of a phase go on in steps of their own, each of which holds the lock of one slot only: while
an executor opens its inputs, it does so stream by stream, with the steps of other calls in between.
Jobs may end at any moment and as they like. A phase begins when all calls of the one before it have
been answered well. Whatever has been opened and started is written down.
-/
namespace QueryCluster

/-- How far a call to an executor has come. -/
inductive Progression where
  | waiting
  /-- Inputs that were opened and those still to be opened. -/
  | dialling (d : Dialling) (opened : List StreamId) (rest : List Location)
  | answered (answer : Except ExecutorError Unit)

/-- A stream that a writer gave to a reader. -/
structure Attachment where
  writer : Location
  reader : Location
  stream : StreamId

structure Rollout where
  network : Network
  phase : Phase := .sendInstruction
  /-- The calls of the phase, in the order of the nodes. -/
  calls : List Progression
  attached : List Attachment := []
  started : List (Location × Job) := []

inductive Rollout.Event where
  /-- A call goes one step on. -/
  | call (k : Nat)
  /-- A job ends, whatever it comes to. -/
  | job (k : Nat) (e : Execution)
  | turn

def Phase.next? : Phase → Option Phase
  | .sendInstruction => some .setupWriters
  | .setupWriters => some .setupReaders
  | .setupReaders => some .run
  | .run => none

def Progression.isFine : Progression → Bool
  | answered (.ok _) => true
  | _ => false

namespace Rollout

variable (nodes : List Assignment) (r : Rollout)

/-- No call has been made yet. -/
def begin (n : Network) : Rollout := { network := n, calls := nodes.map fun _ => .waiting }

def answer (k : Nat) (x : Except ExecutorError Unit × Network) : Rollout :=
  { r with network := x.2, calls := r.calls.set k (.answered x.1) }

/-- The first step of a call. -/
def request (k : Nat) (a : Assignment) (i : Nat) (w : Worker) : Rollout :=
  match r.phase with
  | .sendInstruction =>
    r.answer k (r.network.update i (·.receive w.location.name a.instruction))
  | .setupWriters => r.answer k (r.network.update i Slot.setupWriters)
  | .setupReaders =>
    match (r.network.slot i).beginReaders with
    | .error e => r.answer k (.error e, r.network)
    | .ok d => { r with calls := r.calls.set k (.dialling d [] d.inputs) }
  | .run =>
    let job := match (r.network.slot i).start with
      | .ok (_, j) => [(w.location, j)]
      | .error _ => []
    { r.answer k (r.network.start i w) with started := r.started ++ job }

/-- The next step of a call that opens inputs. -/
def dial (k i : Nat) (w : Worker) (d : Dialling) (opened : List StreamId) : List Location → Rollout
  | [] =>
    match (r.network.slot i).commitReaders d.epoch opened with
    | .error e => r.answer k (.error e, r.network.close opened)
    | .ok s => r.answer k (.ok (), r.network.put i s)
  | l :: ls =>
    match r.network.dial d.task w.location l with
    | (.error e, n) => r.answer k (.error (.peer l e), n.close opened)
    | (.ok id, n) =>
      { r with
        network := n
        calls := r.calls.set k (.dialling d (opened ++ [id]) ls)
        attached := r.attached ++ [⟨l, w.location, id⟩] }

def call (k : Nat) : Rollout :=
  match nodes[k]?, r.calls[k]? with
  | some a, some c =>
    match r.network.reach a.location with
    | some (.worker i) =>
      match r.network.workers[i]?, c with
      | some w, .waiting => r.request k a i w
      | some w, .dialling d opened rest => r.dial k i w d opened rest
      | some _, .answered _ => r
      | none, _ => r.answer k (.error .io, r.network)
    | _ => r.answer k (.error .io, r.network)
  | _, _ => r

def endJob (k : Nat) (e : Execution) : Rollout :=
  match r.network.jobs[k]? with
  | some (i, j) =>
    { r with network := { r.network with jobs := r.network.jobs.eraseIdx k }.finish i j e }
  | none => r

def turn : Rollout :=
  match r.phase.next? with
  | some phase =>
    if r.calls.all Progression.isFine then { r with phase, calls := r.calls.map fun _ => .waiting }
    else r
  | none => r

def act : Event → Rollout
  | .call k => r.call nodes k
  | .job k e => r.endJob k e
  | .turn => r.turn

def run (events : List Event) : Rollout := events.foldl (act nodes) r

/-- Every call of every phase has been answered well. -/
def isComplete : Bool := r.phase = .run && r.calls.all Progression.isFine

end Rollout
end QueryCluster
