import QueryCluster.Expr.Eval
import QueryCluster.Operator.Emission
import QueryCluster.Split.Heads
import QueryCluster.Stream.Writer

/-!
# Sorting in two phases

A local sort keys each of its rows once by the sort expressions and sorts them stably. A merge holds
the head row of each sorted input and writes the least head, of equal ones that of the first input.
-/
namespace QueryCluster

def directionsOf (items : List SortItem) : List Direction := items.map (·.direction)

/-- The row with the sort expressions as its keys. -/
def keyRow (schema : Schema) (items : List SortItem) (r : Row) : Except OperatorError Row := do
  let keys ← items.mapM fun i => (i.expr.eval schema r.values).mapError OperatorError.ofExpr
  return Row.withKeys r.values keys

/-- Rows that fit in a buffer of so many columns. -/
def fitting (columns : Nat) (r : Row) : Except OperatorError Row :=
  if r.values.length = columns then .ok r
  else .error (.ofShape (.rowWidth r.values.length columns))

def keySchema (schema : Schema) (items : List SortItem) : Except OperatorError Schema :=
  let keyed := items.foldlM (fun (s : Schema) (i : SortItem) => (i.expr.typeOf schema).map s.addKey)
    schema.withoutKeys
  keyed.mapError OperatorError.ofSchema

/-- The state is the buffer, in order of arrival. -/
def localSortProcess (items : List SortItem) (limit : Option Nat) (schema : Schema) :
    Except OperatorError (Process Split) := do
  let output ← keySchema schema items
  return {
    schema := output
    start := { schema := output, orders := directionsOf items }
    step := fun buffer s => do
      match limit with
      | some n => if n < buffer.rowCount + s.rowCount then throw (.sortLimit n)
      | none => pure ()
      let rows ← s.rows.mapM fun r => do
        fitting output.columns.length (← keyRow s.schema items r)
      return ({ buffer with rows := buffer.rows ++ rows }, [])
    finish := fun buffer => if buffer.isEmpty then [] else [buffer.sort] }

/-- What is left of a sorted input: rows of the split at hand, and the splits behind it. -/
structure Cursor where
  rows : List Row := []
  splits : List Split
  fault : Option OperatorError

namespace Cursor

def ofFeed (f : Feed) : Cursor := { splits := f.splits, fault := f.fault }

def nextFrom (fault : Option OperatorError) : List Split → Except OperatorError (Option Row × Cursor)
  | [] => match fault with
    | some e => .error e
    | none => .ok (none, { splits := [], fault })
  | s :: splits => match s.rows with
    | r :: rows => .ok (some r, { rows, splits, fault })
    | [] => nextFrom fault splits

def next (c : Cursor) : Except OperatorError (Option Row × Cursor) :=
  match c.rows with
  | r :: rows => .ok (some r, { c with rows })
  | [] => nextFrom c.fault c.splits

def rowCount (c : Cursor) : Nat := c.rows.length + countRows c.splits

end Cursor

/-- Rows in merged order, up to the first failure. Every step writes one row, so the number of rows
is fuel enough. -/
def mergeRows (columns : Nat) : (fuel : Nat) → Heads → List Cursor → List Row × Option OperatorError
  | 0, _, _ => ([], none)
  | fuel + 1, heads, cursors =>
    match heads.least? with
    | none => ([], none)
    | some (i, r) =>
      match cursors[i]? with
      | none => ([], none)
      | some c =>
        let advanced : Except OperatorError (Row × Option Row × Cursor) := do
          let (head, c) ← c.next
          return (← fitting columns r.withoutKeys, head, c)
        match advanced with
        | .error e => ([], some e)
        | .ok (r, head, c) =>
          let (rows, fault) := mergeRows columns fuel (heads.set i head) (cursors.set i c)
          (r :: rows, fault)

def firstRows : List Cursor → Except OperatorError (List (Option Row) × List Cursor)
  | [] => .ok ([], [])
  | c :: cs => do
    let (r, c) ← c.next
    let (rs, cs) ← firstRows cs
    return (r :: rs, c :: cs)

/-- Each input carries one key for each sort item, and all have one schema. -/
def mergeSchema (items : List SortItem) :
    Option Schema → List Feed → Except OperatorError (Option Schema)
  | first, [] => .ok first
  | first, f :: fs => do
    let s ← f.schema
    if s.keys.length ≠ items.length then
      throw (.mismatch (.sortKeys items.length s.keys.length))
    match first with
    | none => mergeSchema items (some s) fs
    | some t =>
      if t = s then mergeSchema items (some t) fs else throw (.mismatch (.sortedInputs t s))

def mergeInto (items : List SortItem) (batchRows : Nat) (output : Schema) (inputs : List Feed) :
    Emission :=
  match firstRows (inputs.map Cursor.ofFeed) with
  | .error e => { schema := some output, outcome := .error e }
  | .ok (heads, cursors) =>
    let count := countRows (inputs.flatMap (·.splits))
    let (rows, fault) :=
      mergeRows output.columns.length count ⟨heads, directionsOf items⟩ cursors
    let size := max batchRows 1
    let batches := StreamWriter.batches { schema := output, rows } size
    match fault with
    | none =>
      { schema := some output, splits := batches, outcome := .ok ⟨rows.length, rows.length⟩ }
    | some e =>
      { schema := some output, splits := batches.filter (·.rowCount == size), outcome := .error e }

def runMerge (items : List SortItem) (batchRows : Nat) (inputs : List Feed) : Emission :=
  match mergeSchema items none inputs with
  | .error e => .failed e
  | .ok none => .failed (.execution .noMergeInput)
  | .ok (some s) => mergeInto items batchRows s.withoutKeys inputs

end QueryCluster
