import QueryCluster.Graph.Basic
import QueryCluster.Graph.Sizing
import QueryCluster.Value.Key

/-!
# Binding a plan to executors

Executors are handed out from the outermost stage down. A stage takes its executors, tells the stage
below where to write, and is appended behind it.
-/
namespace QueryCluster

/-- Where the nodes of a stage write. -/
inductive Targets where
  /-- Nowhere: the stage is the root. -/
  | root
  /-- Node `i` writes to the location at position `i`. -/
  | paired (locations : List Location)
  /-- Every node writes to all of them. -/
  | fanOut (locations : List Location) (partitioning : Partitioning)

namespace Targets

def outputs (t : Targets) (i : Nat) : List Location :=
  match t with
  | root => []
  | paired locations => locations[i]?.toList
  | fanOut locations _ => locations

def partitioning : Targets → Partitioning
  | root => .single
  | paired _ => .oneToOne
  | fanOut [_] _ => .single
  | fanOut _ p => p

end Targets

/-- What is built so far: the nodes, the executors that the last stage runs on and those left. -/
structure Assembly where
  nodes : List OperatorNode
  tops : List Location
  pool : List Location

namespace Plan

def takeLocations (n : UInt64) (pool : List Location) :
    Except PlanFault (List Location × List Location) :=
  if pool.length < n.toNat then .error .outOfExecutors
  else .ok (pool.take n.toNat, pool.drop n.toNat)

def takeLocation (pool : List Location) : Except PlanFault (Location × List Location) :=
  match pool with
  | [] => .error .outOfExecutors
  | l :: pool => .ok (l, pool)

/-- Partitions `i`, `i + step`, … below `count`. -/
def everyNth (count step i : Nat) : List UInt64 :=
  (List.range' i ((count - i + step - 1) / step) step).map UInt64.ofNat

def stageNodes (locations : List Location) (targets : Targets) (inputs : Nat → List Location)
    (operator : Nat → Operator) : List OperatorNode :=
  locations.zipIdx.map fun (location, i) => {
    location
    inputs := inputs i
    outputs := targets.outputs i
    partitioning := targets.partitioning
    operator := operator i }

def scanNodes (scan : TableScan) (locations : List Location) (targets : Targets) :
    List OperatorNode :=
  stageNodes locations targets (fun _ => []) fun i => .scan {
    catalog := scan.catalog
    schema := scan.schema
    table := scan.table
    partitions := everyNth scan.partitions.toNat locations.length i
    columns := scan.columns
    filters := scan.filters }

/-- Builds the stages below for given targets from a pool. -/
abbrev Below := Targets → List Location → Except PlanFault Assembly

/-- A stage whose nodes are partners of the nodes below. -/
def pairedStage (width : UInt64) (operator : Operator) (below : Below) : Below :=
  fun targets pool => do
    let (locations, pool) ← takeLocations width pool
    let a ← below (.paired locations) pool
    let nodes := stageNodes locations targets (fun i => a.tops[i]?.toList) fun _ => operator
    return { nodes := a.nodes ++ nodes, tops := locations, pool := a.pool }

/-- A stage of `p` workers that share the rows below, and a node that gathers what they write. -/
def workerStage (p : UInt64) (partitioning : Partitioning) (worker : Nat → Operator)
    (gather : Operator) (below : Below) : Below :=
  fun targets pool => do
    let (top, pool) ← takeLocation pool
    let (workers, pool) ← takeLocations p pool
    let a ← below (.fanOut workers partitioning) pool
    let nodes := stageNodes workers (.fanOut [top] .single) (fun _ => a.tops) worker
    let gatherer := stageNodes [top] targets (fun _ => workers) fun _ => gather
    return { nodes := a.nodes ++ nodes ++ gatherer, tops := [top], pool := a.pool }

/-- A stage of one node that reads all that is below. -/
def singleStage (operator : Operator) (below : Below) : Below :=
  fun targets pool => do
    let (top, pool) ← takeLocation pool
    let a ← below (.fanOut [top] .single) pool
    let nodes := stageNodes [top] targets (fun _ => a.tops) fun _ => operator
    return { nodes := a.nodes ++ nodes, tops := [top], pool := a.pool }

/-- The worker that owns the only group of a grouping without keys. -/
def groupOwner (keys : List String) (p : UInt64) : Option Nat :=
  if keys.isEmpty then some (hashPartition [] p.toNat) else none

def assemble (scan : TableScan) (p : UInt64) : List Stage → Below
  | [] => fun targets pool => do
    let (locations, pool) ← takeLocations (scanWidth scan p) pool
    return { nodes := scanNodes scan locations targets, tops := locations, pool }
  | .filter predicate :: below =>
    pairedStage (extentOf scan p below).top (.filter predicate) (assemble scan p below)
  | .project exprs :: below =>
    pairedStage (extentOf scan p below).top (.project exprs) (assemble scan p below)
  | .group keys aggregates :: below =>
    workerStage p (.hash keys) (fun i => .group keys aggregates (groupOwner keys p == some i)) .union
      (assemble scan p below)
  | .sort items :: below =>
    workerStage p .roundRobin (fun _ => .localSort items) (.merge items) (assemble scan p below)
  | .limit count :: below => singleStage (.limit count) (assemble scan p below)

/-- The stages of a plan on the executors of a pool. A root of its own gathers the rows if the last
stage runs on several executors. -/
def assembleRoot (plan : Plan) (p : UInt64) (pool : List Location) : Except PlanFault Assembly := do
  let top := (plan.extent p).top
  if 1 < top then
    let (root, pool) ← takeLocation pool
    let a ← assemble plan.scan p plan.stages (.paired (List.replicate top.toNat root)) pool
    let nodes := a.nodes ++ stageNodes [root] .root (fun _ => a.tops) fun _ => .union
    return { nodes, tops := [root], pool := a.pool }
  else assemble plan.scan p plan.stages .root pool

/-- The last node on the first of some executors. -/
def rootOf (nodes : List OperatorNode) : List Location → Except PlanFault OperatorNode
  | [] => .error .noRoot
  | l :: _ => match nodes.reverse.find? fun n => n.location = l with
    | some n => .ok n
    | none => .error .rootMissing

/-- Binds a plan to the first of the free executors and appends its nodes to others; gives the root
or a fault, all nodes, and the executors that are still free. -/
def bindOnto (plan : Plan) (p : UInt64) (nodes : List OperatorNode) (free : List Location) :
    Except PlanError OperatorNode × List OperatorNode × List Location :=
  match plan.executorCount p with
  | .error fault => (.error (.invalid fault), nodes, free)
  | .ok needed =>
    if free.length < needed.toNat then
      (.error (.capacity needed.toNat free.length), nodes, free)
    else
      let left := free.drop needed.toNat
      match plan.assembleRoot p (free.take needed.toNat) with
      | .error fault => (.error (.invalid fault), nodes, left)
      | .ok a =>
        let nodes := nodes ++ a.nodes
        ((rootOf nodes a.tops).mapError .invalid, nodes, left)

/-- Binds a plan to the first of the free executors; gives what came of it and the executors that
are still free. -/
def bind (plan : Plan) (p : UInt64) (free : List Location) :
    Except PlanError Graph × List Location :=
  let (root, nodes, left) := plan.bindOnto p [] free
  (root.map fun root => { nodes, root }, left)

end Plan
end QueryCluster
