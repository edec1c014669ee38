import QueryCluster.Graph.Build
import QueryCluster.Graph.Listing
import QueryCluster.Pipeline.Compile

/-!
# Explaining a pipeline

The plan from its last stage down to the scan, the executors it needs, and the graph that it becomes
on executors that stand for real ones.
-/
namespace QueryCluster.CommandLine

/-- Executors that only have names to speak of. -/
def standIns (count : Nat) : List Location :=
  (List.range count).map fun i =>
    ⟨"exec-" ++ toString i, "127.0.0.1", UInt16.ofNat (7000 + i)⟩

def indented (names : List String) : List String :=
  names.zipIdx.map fun (name, depth) => String.ofList (List.replicate (2 + depth * 2) ' ') ++ name

def explanation (plan : Plan) (parallelism : Nat) : Except PlanError String := do
  let count (p : UInt64) : Except PlanError UInt64 := (plan.executorCount p).mapError .invalid
  let p := UInt64.ofNat parallelism
  let required ← count p
  let graph ← (plan.bind p (standIns required.toNat)).1
  let alone ← count 1
  let lines := ["Pipeline Execution Plan", "=======================", "", "Logical plan:"] ++
    indented plan.names ++
    ["", "Parallelism: " ++ toString parallelism,
      "Executors:   " ++ toString required ++ " (at parallelism 1: " ++ toString alone ++ ")",
      "Root:        " ++ graph.root.location.name, "", "Physical nodes:"]
  return String.join (lines.map (· ++ "\n")) ++ listing graph.nodes

end QueryCluster.CommandLine
