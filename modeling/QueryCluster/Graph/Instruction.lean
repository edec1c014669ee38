import QueryCluster.Codec.Graph
import QueryCluster.Plan.Error
import QueryCluster.Text.Base64

/-!
# Instructions

An instruction carries one node of a task to the executor that runs it, as text of its bytes, with
the type of its operator beside it.
-/
namespace QueryCluster

/-- Tasks are numbered. -/
abbrev TaskId := UInt64

def TaskId.display (id : TaskId) : String := "TaskId(" ++ toString id ++ ")"

structure Instruction where
  task : TaskId
  type : OperatorType
  catalog : String
  schema : String
  encodedNode : String
  deriving DecidableEq, Repr, Inhabited

namespace Instruction

def ofNode (task : TaskId) (catalog schema : String) (n : OperatorNode) : Instruction :=
  { task, type := n.operator.type, catalog, schema, encodedNode := Text.Base64.encode n.encode }

/-- The node an instruction carries, which must be of the type beside it. -/
def node (i : Instruction) : Except PlanError OperatorNode :=
  match (Text.Base64.decode? i.encodedNode).bind (Codec.decode? OperatorNode.decode) with
  | none => .error (.encoding .unreadable)
  | some n =>
    if n.operator.type = i.type then .ok n
    else .error (.encoding (.wrongType i.type.name n.operator.type.name))

end Instruction
end QueryCluster
