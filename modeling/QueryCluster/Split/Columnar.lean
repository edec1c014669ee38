import QueryCluster.Split.Basic

/-!
# Splits as arrays

A split in memory is one array for each column, two for each key and a counter, and nothing but the code
that changes them keeps them of one length. An array that is indexed out of bounds stops the program; an
operation that does so has no result here.
-/
namespace QueryCluster

structure Columnar where
  schema : Schema
  columns : List (List Value)
  keys : List (List Value)
  flags : List (List Bool)
  orders : List Direction := []
  rowCount : Nat
  deriving DecidableEq, Repr

namespace Columnar

/-- All arrays that the schema calls for are there, and each has an entry for each row. -/
structure WellFormed (c : Columnar) : Prop where
  columns : c.columns.length = c.schema.columns.length
  keys : c.keys.length = c.schema.keys.length
  flags : c.flags.length = c.schema.keys.length
  columnRows : ∀ array ∈ c.columns, array.length = c.rowCount
  keyRows : ∀ array ∈ c.keys, array.length = c.rowCount
  flagRows : ∀ array ∈ c.flags, array.length = c.rowCount

def empty (schema : Schema) : Columnar where
  schema
  columns := List.replicate schema.columns.length []
  keys := List.replicate schema.keys.length []
  flags := List.replicate schema.keys.length []
  rowCount := 0

/-- Arrays that must match the schema in number and have one length, that of the first one. -/
def ofParts (schema : Schema) (columns keys : List (List Value)) (flags : List (List Bool)) :
    Except ShapeFault Columnar :=
  if columns.length ≠ schema.columns.length then
    .error (.columnCount columns.length schema.columns.length)
  else if keys.length ≠ schema.keys.length ∨ flags.length ≠ schema.keys.length then
    .error (.keyCount keys.length flags.length schema.keys.length)
  else
    let rowCount := ((columns.head?.or keys.head?).map List.length).getD 0
    if (columns ++ keys).any (·.length ≠ rowCount) || flags.any (·.length ≠ rowCount) then .error .ragged
    else .ok { schema, columns, keys, flags, rowCount }

/-- Array after array takes on what stands in the same place, as long as there are both. -/
def extendEach {α : Type} : List (List α) → List (List α) → List (List α)
  | array :: arrays, more :: rest => (array ++ more) :: extendEach arrays rest
  | arrays, _ => arrays

/-- What an operation in place comes to: the fault that it reports, and the arrays behind it. -/
abbrev Outcome := Option (Option ShapeFault × Columnar)

/-- The flags are indexed by the number of a key, and all the others walked through. -/
def pushKeyed (c : Columnar) (values : List Value) (keys : List (Option Value)) : Outcome :=
  if values.length ≠ c.columns.length then some (some (.rowWidth values.length c.columns.length), c)
  else if keys.length ≠ c.keys.length then some (some (.rowKeys keys.length c.keys.length), c)
  else if c.flags.length < keys.length then none
  else
    some (none, { c with
      columns := extendEach c.columns (values.map ([·]))
      keys := extendEach c.keys ((keys.map (·.getD .null)).map ([·]))
      flags := extendEach c.flags ((keys.map (·.isSome)).map ([·]))
      rowCount := c.rowCount + 1 })

def push (c : Columnar) (values : List Value) : Outcome :=
  c.pushKeyed values (List.replicate c.keys.length none)

def append (c other : Columnar) : Option ShapeFault × Columnar :=
  if other.columns.length ≠ c.columns.length ∨ other.keys.length ≠ c.keys.length then
    (some (.appendShape other.columns.length other.keys.length c.columns.length c.keys.length), c)
  else
    (none, { c with
      columns := extendEach c.columns other.columns
      keys := extendEach c.keys other.keys
      flags := extendEach c.flags other.flags
      rowCount := c.rowCount + other.rowCount })

/-- Moves a row out of the arrays and leaves nulls behind; its flags stay. -/
def takeRow (c : Columnar) (r : Nat) : Option (Row × Columnar) := do
  let values ← c.columns.mapM (·[r]?)
  let keys ← c.keys.mapM (·[r]?)
  let flags ← c.flags.mapM (·[r]?)
  return (⟨values, keys, flags⟩,
    { c with columns := c.columns.map (·.set r .null), keys := c.keys.map (·.set r .null) })

/-- The keys and the flags of a row, copied out of the arrays. -/
def keyRow (c : Columnar) (r : Nat) : Option (List Value × List Bool) := do
  let keys ← c.keys.mapM (·[r]?)
  let flags ← c.flags.mapM (·[r]?)
  return (keys, flags)

/-- Key number `k` of row `r`, unless it is absent or there is no such place. -/
def keyCell (c : Columnar) (k r : Nat) : Option Value :=
  match c.flags[k]?.bind (·[r]?) with
  | some true => c.keys[k]?.bind (·[r]?)
  | _ => none

/-- The first position from `k` on where the keys of two rows differ decides. -/
def compareRowsFrom (c : Columnar) (r t : Nat) : Nat → List Direction → Ordering
  | _, [] => .eq
  | k, d :: ds =>
    match compareKey d (c.keyCell k r) (c.keyCell k t) with
    | .eq => compareRowsFrom c r t (k + 1) ds
    | o => o

def compareRows (c : Columnar) (r t : Nat) : Ordering := c.compareRowsFrom r t 0 c.orders

/-- Every array is read anew at the given row numbers. -/
def permute (c : Columnar) (numbers : List Nat) : Option Columnar := do
  let columns ← c.columns.mapM fun array => numbers.mapM (array[·]?)
  let keys ← c.keys.mapM fun array => numbers.mapM (array[·]?)
  let flags ← c.flags.mapM fun array => numbers.mapM (array[·]?)
  return { c with columns, keys, flags }

/-- Sorts the numbers of the rows by their keys. -/
def sort (c : Columnar) : Option Columnar :=
  if c.rowCount < 2 ∨ c.keys.isEmpty then some c
  else c.permute (Split.stableSort c.compareRows (List.range c.rowCount))

/-- Places `start ..< stop` of an array, which must reach as far. -/
def cut {α : Type} (start stop : Nat) (array : List α) : Option (List α) :=
  if stop ≤ array.length then some ((array.take stop).drop start) else none

/-- Rows `start ..< stop`, as far as the counter says that they exist. -/
def slice (c : Columnar) (start stop : Nat) : Option Columnar := do
  let stop := min stop c.rowCount
  let start := min start stop
  let columns ← c.columns.mapM (cut start stop)
  let keys ← c.keys.mapM (cut start stop)
  let flags ← c.flags.mapM (cut start stop)
  return { c with columns, keys, flags, rowCount := stop - start }

def withoutKeys (c : Columnar) : Columnar where
  schema := c.schema.withoutKeys
  columns := c.columns
  keys := []
  flags := []
  rowCount := c.rowCount

end Columnar

end QueryCluster
