import QueryCluster.Operator.Feed

/-!
# What operators write

An emission is all that an operator hands to its output: a schema, splits, and how the run ended.
Most operators are processes that answer each split of one feed with splits of their own.
-/
namespace QueryCluster

structure Stats where
  rowsIn : Nat := 0
  rowsOut : Nat := 0
  deriving DecidableEq, Repr

structure Emission where
  schema : Option Schema := none
  splits : List Split := []
  outcome : Except OperatorError Stats

def countRows : List Split → Nat
  | [] => 0
  | s :: splits => s.rowCount + countRows splits

namespace Emission

/-- A run that ends before anything is written. -/
def failed (e : OperatorError) : Emission := { outcome := .error e }

end Emission

structure Process (σ : Type) where
  schema : Schema
  start : σ
  step : σ → Split → Except OperatorError (σ × List Split)
  finish : σ → List Split := fun _ => []

namespace Process

variable {σ : Type}

/-- Answers splits one by one, up to the first failure. -/
def answer (p : Process σ) : σ → List Split → List Split × Except OperatorError σ
  | s, [] => ([], .ok s)
  | s, x :: xs =>
    match p.step s x with
    | .error e => ([], .error e)
    | .ok (s, out) =>
      let (rest, r) := answer p s xs
      (out ++ rest, r)

/-- Only a feed that ends without a fault is answered to the end. -/
def run (p : Process σ) (feed : Feed) : Emission :=
  let (splits, r) := p.answer p.start feed.splits
  match r, feed.fault with
  | .error e, _ => { schema := some p.schema, splits, outcome := .error e }
  | .ok _, some e => { schema := some p.schema, splits, outcome := .error e }
  | .ok s, none =>
    let all := splits ++ p.finish s
    { schema := some p.schema, splits := all, outcome := .ok ⟨countRows feed.splits, countRows all⟩ }

/-- Runs the process that the schema of a feed calls for. -/
def runOn (process : Schema → Except OperatorError (Process σ)) (feed : Except OperatorError Feed) :
    Emission :=
  let ready : Except OperatorError (Process σ × Feed) := do
    let feed ← feed
    let schema ← feed.schema
    return (← process schema, feed)
  match ready with
  | .error e => .failed e
  | .ok (p, feed) => p.run feed

end Process
end QueryCluster
