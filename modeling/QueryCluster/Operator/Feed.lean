import QueryCluster.Operator.Error
import QueryCluster.Stream.Reader

/-!
# What operators read

A feed is all that an input will give: its schema, or why it has none, then splits, and then the
end or a fault. Several inputs are read as one feed. Their splits arrive in any order that keeps the
order of each input; `arrival` names, split by split, the input that is next.
-/
namespace QueryCluster

structure Feed where
  schema : Except OperatorError Schema
  splits : List Split := []
  fault : Option OperatorError := none

namespace Feed

def ofSplits (schema : Schema) (splits : List Split) : Feed := { schema := .ok schema, splits }

def readSplits : (fuel : Nat) → StreamReader → List Split × Option OperatorError
  | 0, _ => ([], some (.split .truncated))
  | fuel + 1, r =>
    match r.readSplit with
    | (.error e, _) => ([], some (.split e))
    | (.ok none, _) => ([], none)
    | (.ok (some s), r) =>
      let (splits, fault) := readSplits fuel r
      (s :: splits, fault)

def ofStream (r : StreamReader) : Feed :=
  let (schema, r) := r.readSchema
  let (splits, fault) := readSplits (r.source.size + 2) r
  { schema := schema.mapError .split, splits, fault }

/-- The schema of all feeds, which must agree. -/
def commonSchema (disagree : Schema → Schema → MismatchFault) :
    Option Schema → List Feed → Except OperatorError (Option Schema)
  | first, [] => .ok first
  | first, f :: fs => do
    let s ← f.schema
    match first with
    | none => commonSchema disagree (some s) fs
    | some t => if t = s then commonSchema disagree (some t) fs else throw (.mismatch (disagree t s))

/-- The feeds one after another, up to the first fault. -/
def drain : List Feed → List Split × Option OperatorError
  | [] => ([], none)
  | f :: fs =>
    match f.fault with
    | some e => (f.splits, some e)
    | none =>
      let (splits, fault) := drain fs
      (f.splits ++ splits, fault)

/-- Splits in order of arrival; what no arrival names follows in the order of the feeds. -/
def interleave : (arrival : List Nat) → List Feed → List Split × Option OperatorError
  | [], fs => drain fs
  | i :: arrival, fs =>
    match fs[i]? with
    | none => interleave arrival fs
    | some f =>
      match f.splits, f.fault with
      | s :: rest, _ =>
        let (splits, fault) := interleave arrival (fs.set i { f with splits := rest })
        (s :: splits, fault)
      | [], some e => ([], some e)
      | [], none => interleave arrival fs

/-- Several feeds as one. -/
def gather (arrival : List Nat) (feeds : List Feed) : Except OperatorError Feed :=
  match feeds with
  | [] => .error (.execution .noInput)
  | [f] => .ok f
  | fs => do
    match ← commonSchema .inputs none fs with
    | none => throw (.execution .noInput)
    | some schema =>
      let (splits, fault) := interleave arrival fs
      return { schema := .ok schema, splits, fault }

end Feed
end QueryCluster
