import QueryCluster.Executor.Network
import QueryCluster.Scheduler.Run

/-!
# A client that calls executors in a network
-/
namespace QueryCluster.Network

/-- A request over the network, and what the caller makes of the answer. -/
def ask {α : Type} (read : Response → Except RpcError α) (l : Location) (r : Request)
    (w : World Network) : Except RpcError α × World Network :=
  let (answer, n) := w.outside.call l r
  (answer.bind read, { w with outside := n })

def phaseRequest (i : Instruction) : Phase → Request
  | .sendInstruction => .sendInstruction i
  | .setupWriters => .setupWriters
  | .setupReaders => .setupReaders
  | .run => .run

def client : Client (World Network) where
  perform phase l i := ask Response.toAck l (phaseRequest i phase)
  abort l task := ask Response.toAck l (.abort task)
  status l := ask Response.toStatus l .status
  results l task := ask Response.toResults l (.fetchResults task)

end QueryCluster.Network
