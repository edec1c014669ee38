import QueryCluster.Pipeline.Basic
import QueryCluster.Plan.Typing

/-!
# Faults of plans
-/
namespace QueryCluster

inductive CompileFault where
  | unknownAggregate (word : String)
  | noPartitions (table : String)
  | manyScans
  | scanNotFirst (step : Pipeline.Step)
  | emptyPipeline
  | noColumns
  | needsColumn (func : String)
  | illTyped (fault : TypeFault)
  deriving DecidableEq, Repr

inductive PlanFault where
  | noParallelism
  | outOfExecutors
  | noRoot
  | rootMissing
  | undefinedAggregate (func : AggregateFunction) (argument : Option DataType) (label : String)
  deriving DecidableEq, Repr

inductive EncodingFault where
  | unreadable
  | wrongType (tagged carried : String)
  deriving DecidableEq, Repr

inductive PlanError where
  | compile (fault : CompileFault)
  | document
  | expr (fault : ExprFault)
  | capacity (needed available : Nat)
  | invalid (fault : PlanFault)
  | encoding (fault : EncodingFault)
  | base (error : BaseError)
  deriving DecidableEq, Repr

def PlanFault.message : PlanFault → String
  | .noParallelism => "parallelism must be at least 1"
  | .outOfExecutors => "ran out of executors while binding plan"
  | .noRoot => "plan produced no root"
  | .rootMissing => "root node missing"
  | .undefinedAggregate func argument label =>
    func.name ++ " is not defined over " ++
      (match argument with
        | some t => "Some(" ++ t.name ++ ")"
        | none => "None") ++ " (alias '" ++ label ++ "')"

def TypeFault.toPlanError : TypeFault → PlanError
  | .schema fault => .base (.schema fault)
  | .undefinedAggregate func argument label => .invalid (.undefinedAggregate func argument label)

/-- An ill-typed plan is reported by the fault of its typing. -/
def TypeFault.message : TypeFault → String
  | .schema fault => (BaseError.schema fault).message
  | .undefinedAggregate func argument label =>
    "invalid plan: " ++ (PlanFault.undefinedAggregate func argument label).message

def CompileFault.message : CompileFault → String
  | .unknownAggregate word => "unknown aggregate '" ++ word ++ "'"
  | .noPartitions table => "table '" ++ table ++ "' declares zero partitions"
  | .manyScans => "multiple scans are not supported in a linear pipeline"
  | .scanNotFirst step => "first step must be 'scan', got " ++ step.literal
  | .emptyPipeline => "empty pipeline"
  | .noColumns => "scan declares no columns"
  | .needsColumn func => func ++ " needs a column"
  | .illTyped fault => fault.message

def EncodingFault.message : EncodingFault → String
  | .unreadable => "unreadable node"
  | .wrongType tagged carried => "instruction tagged " ++ tagged ++ " carries a " ++ carried ++ " node"

namespace PlanError

def kind : PlanError → String
  | compile _ => "Compile"
  | document => "Yaml"
  | expr _ => "Expr"
  | capacity _ _ => "Capacity"
  | invalid _ => "Invalid"
  | encoding _ => "Encoding"
  | base error => "Core/" ++ error.kind

def message : PlanError → String
  | compile fault => "compile error: " ++ fault.message
  | document => "pipeline document: unreadable"
  | expr fault => "expression error: " ++ fault.message
  | capacity needed available =>
    "need " ++ toString needed ++ " executors, " ++ toString available ++ " available"
  | invalid fault => "invalid plan: " ++ fault.message
  | encoding fault => "instruction encoding: " ++ fault.message
  | base error => error.message

end PlanError
end QueryCluster
