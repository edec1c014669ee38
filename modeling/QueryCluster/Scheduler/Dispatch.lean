import QueryCluster.Config
import QueryCluster.Scheduler.Client

/-!
# Dispatch

A graph is brought onto its executors in four phases, and a phase begins when the one before it has
gone well everywhere. In sequence, a phase stops at its first failure. In parallel, all calls of a
phase are made, in any order, and the failure first in the order of the graph counts.
-/
namespace QueryCluster

/-- A node's instruction and the executor it is meant for. -/
structure Assignment where
  location : Location
  instruction : Instruction
  deriving DecidableEq, Repr

structure DispatchFailure where
  phase : Phase
  location : Location
  error : RpcError
  /-- The executors that were sent an instruction. -/
  contacted : List Location
  deriving DecidableEq, Repr

/-- Whom the calls of a phase reached, and the failure that counts. -/
structure PhaseResult where
  called : List Location
  failure : Option (Location × RpcError)
  deriving DecidableEq, Repr

namespace Client

variable {ω : Type} (c : Client ω)

def inSequence (phase : Phase) : List Assignment → ω → PhaseResult × ω
  | [], w => (⟨[], none⟩, w)
  | a :: as, w =>
    match c.perform phase a.location a.instruction w with
    | (.error e, w) => (⟨[a.location], some (a.location, e)⟩, w)
    | (.ok _, w) =>
      let (r, w) := inSequence phase as w
      ({ r with called := a.location :: r.called }, w)

/-- The numbers below `n`: first those that are named, then the others in order. -/
def callOrder (named : List Nat) (n : Nat) : List Nat :=
  let first := named.eraseDups.filter (· < n)
  first ++ (List.range n).filter (· ∉ first)

/-- Calls the executors with these numbers; gives the faults, each with its number. -/
def callEach (phase : Phase) (nodes : List Assignment) : List Nat → ω → List (Nat × RpcError) × ω
  | [], w => ([], w)
  | i :: is, w =>
    match nodes[i]? with
    | none => callEach phase nodes is w
    | some a =>
      match c.perform phase a.location a.instruction w with
      | (.error e, w) =>
        let (faults, w) := callEach phase nodes is w
        ((i, e) :: faults, w)
      | (.ok _, w) => callEach phase nodes is w

def inParallel (order : List Nat) (phase : Phase) (nodes : List Assignment) (w : ω) :
    PhaseResult × ω :=
  let (faults, w) := c.callEach phase nodes (callOrder order nodes.length) w
  let failure := nodes.zipIdx.findSome? fun (a, i) => (faults.lookup i).map (a.location, ·)
  (⟨nodes.map (·.location), failure⟩, w)

def callPhase (mode : DispatchMode) (order : List Nat) (phase : Phase) (nodes : List Assignment)
    (w : ω) : PhaseResult × ω :=
  match mode with
  | .sequential => c.inSequence phase nodes w
  | .parallel => c.inParallel order phase nodes w

def dispatchPhases (mode : DispatchMode) (order : Phase → List Nat) (nodes : List Assignment) :
    (contacted : List Location) → List Phase → ω → Except DispatchFailure Unit × ω
  | _, [], w => (.ok (), w)
  | contacted, phase :: phases, w =>
    let (r, w) := c.callPhase mode (order phase) phase nodes w
    let contacted := if phase = .sendInstruction then contacted ++ r.called else contacted
    match r.failure with
    | some (location, error) => (.error { phase, location, error, contacted }, w)
    | none => dispatchPhases mode order nodes contacted phases w

/-- Brings nodes onto their executors. `order` is the order of the calls within a parallel phase. -/
def dispatch (mode : DispatchMode) (order : Phase → List Nat) (nodes : List Assignment) (w : ω) :
    Except DispatchFailure Unit × ω :=
  c.dispatchPhases mode order nodes [] Phase.all w

end Client
end QueryCluster
