import QueryCluster.Executor.Status
import QueryCluster.Message.Results

/-!
# What the scheduler asks of executors

A client makes the calls to executors. Each call acts on a world, which also holds what other parties
do while the call is under way.
-/
namespace QueryCluster

/-- The phases in which a graph is brought onto its executors. -/
inductive Phase where
  | sendInstruction
  | setupWriters
  | setupReaders
  | run
  deriving DecidableEq, Repr, Inhabited

namespace Phase

def name : Phase → String
  | sendInstruction => "send_instruction"
  | setupWriters => "setup_writers"
  | setupReaders => "setup_readers"
  | run => "run"

def all : List Phase := [sendInstruction, setupWriters, setupReaders, run]

def ofName? (s : String) : Option Phase := all.find? fun p => p.name == s

end Phase

structure Client (ω : Type) where
  perform : Phase → Location → Instruction → ω → Except RpcError Unit × ω
  abort : Location → TaskId → ω → Except RpcError Unit × ω
  status : Location → ω → Except RpcError StatusReport × ω
  results : Location → TaskId → ω → Except RpcError Split × ω

end QueryCluster
