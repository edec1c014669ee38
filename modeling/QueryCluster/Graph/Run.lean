import QueryCluster.Operator.Output
import QueryCluster.Operator.Run

/-!
# Executing one node, and a graph

The root of a graph keeps its rows; any other node sends them over one stream for each output.
-/
namespace QueryCluster

structure Execution where
  /-- What went in and out, and the rows of a root. -/
  outcome : Except OperatorError (Stats × Option Split)
  /-- What was sent to each output, also before a failure. -/
  sent : List Bytes

def OperatorNode.router (n : OperatorNode) (batchRows outputs : Nat) : Router :=
  Router.start outputs n.partitioning batchRows

/-- Executes a node over its inputs and towards as many outputs as are given. -/
def OperatorNode.execute (w : Workplace) (arrival : List Nat) (inputs : List Feed) (outputs : Nat)
    (n : OperatorNode) : Execution :=
  let e := n.operator.run w arrival inputs
  if n.isRoot then ⟨e.collect.map fun (stats, rows) => (stats, some rows), []⟩
  else
    let (outcome, r) := e.send (n.router w.batchRows outputs)
    ⟨outcome.map (·, none), r.outputs.map (·.sent)⟩

/-!
## Running a graph in one place

The nodes run in order, each over the complete streams of the nodes it reads from. The root's rows
are the result. `arrivals` tells for each node in which order the splits of its inputs reach it.
-/

/-- A finished stream between two executors. -/
structure Wire where
  source : String
  target : String
  bytes : Bytes
  deriving DecidableEq, Repr

/-- What became of the nodes so far. -/
structure Progress where
  wires : List Wire := []
  done : List (OperatorNode × Stats) := []
  result : Option Split := none

namespace OperatorNode

/-- The streams that a node reads, in the order of its inputs. -/
def feeds (n : OperatorNode) (wires : List Wire) : List Feed :=
  n.inputs.map fun l =>
    let sent := wires.find? fun w => w.source == l.name && w.target == n.location.name
    Feed.ofStream (StreamReader.ofBytes ((sent.map (·.bytes)).getD []))

def runIn (w : Workplace) (arrival : List Nat) (p : Progress) (n : OperatorNode) :
    Except OperatorError Progress :=
  let e := n.execute w arrival (n.feeds p.wires) n.outputs.length
  e.outcome.map fun (stats, rows) =>
    { wires := p.wires ++ n.outputs.zipWith (fun l bytes => ⟨n.location.name, l.name, bytes⟩) e.sent
      done := p.done ++ [(n, stats)]
      result := rows.or p.result }

end OperatorNode

/-- The progress made, and the node that failed, if any, with its fault. -/
def runNodes (w : Workplace) (arrivals : OperatorNode → List Nat) : Progress → List OperatorNode →
    Progress × Option (OperatorNode × OperatorError)
  | p, [] => (p, none)
  | p, n :: ns =>
    match n.runIn w (arrivals n) p with
    | .error e => (p, some (n, e))
    | .ok p => runNodes w arrivals p ns

def Graph.run (w : Workplace) (g : Graph) (arrivals : OperatorNode → List Nat) :
    Progress × Option (OperatorNode × OperatorError) :=
  runNodes w arrivals {} g.nodes

end QueryCluster
