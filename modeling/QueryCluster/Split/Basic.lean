import QueryCluster.Schema.Basic
import QueryCluster.Split.Error
import QueryCluster.Value.Order

/-!
# Rows with keys, and splits

A row holds its values and, in a key-carrying stream, its sort keys with a flag that tells a key
that is present from one that is absent. An absent key is not a present null.
-/
namespace QueryCluster

structure Row where
  values : List Value
  keys : List Value := []
  flags : List Bool := []
  deriving DecidableEq, Repr, Inhabited

namespace Row

/-- Key number `k`, unless it is absent. -/
def key? (r : Row) (k : Nat) : Option Value :=
  match r.flags[k]? with
  | some true => r.keys[k]?
  | _ => none

/-- A row whose keys are given as present or absent; an absent key stores null. -/
def withKeys (values : List Value) (keys : List (Option Value)) : Row :=
  ⟨values, keys.map (·.getD .null), keys.map (·.isSome)⟩

def withoutKeys (r : Row) : Row := ⟨r.values, [], []⟩

end Row

/-- Absent keys rank below null, and null below every other value. -/
def compareKey (d : Direction) (a b : Option Value) : Ordering :=
  d.apply <| match a, b with
    | none, none => .eq
    | none, some _ => .lt
    | some _, none => .gt
    | some x, some y => x.natural y

/-- The first position from `k` on where the keys differ decides. -/
def compareKeysFrom (a b : Row) : Nat → List Direction → Ordering
  | _, [] => .eq
  | k, d :: ds =>
    match compareKey d (a.key? k) (b.key? k) with
    | .eq => compareKeysFrom a b (k + 1) ds
    | o => o

def compareKeys (orders : List Direction) (a b : Row) : Ordering := compareKeysFrom a b 0 orders

/-!
## Splits

A split is a batch of rows under one schema. Sort directions belong to the keys its rows carry.
A split is well formed when every row has a value for each column and a key and a flag for each
key field; all operations keep that, and a refused row leaves the split as it was.
-/

structure Split where
  schema : Schema
  rows : List Row := []
  orders : List Direction := []
  deriving DecidableEq, Repr, Inhabited

/-- A row with a value for each column and a key and a flag for each key field. -/
def Row.Fits (r : Row) (s : Schema) : Prop :=
  r.values.length = s.columns.length ∧ r.keys.length = s.keys.length ∧
    r.flags.length = s.keys.length

namespace Split

def WellFormed (s : Split) : Prop := ∀ r ∈ s.rows, r.Fits s.schema

def rowCount (s : Split) : Nat := s.rows.length
def isEmpty (s : Split) : Bool := s.rows.isEmpty
def hasKeys (s : Split) : Bool := !s.schema.keys.isEmpty

/-- Column number `c` from the top row down. -/
def column (s : Split) (c : Nat) : List Value := s.rows.map fun r => r.values[c]?.getD .null
def keyColumn (s : Split) (k : Nat) : List Value := s.rows.map fun r => r.keys[k]?.getD .null
def flagColumn (s : Split) (k : Nat) : List Bool := s.rows.map fun r => r.flags[k]?.getD false

def columns (s : Split) : List (List Value) := (List.range s.schema.columns.length).map s.column
def keyColumns (s : Split) : List (List Value) := (List.range s.schema.keys.length).map s.keyColumn
def flagColumns (s : Split) : List (List Bool) := (List.range s.schema.keys.length).map s.flagColumn

/-- Row number `r` of arrays that hold one entry for each row. -/
def across {α : Type} (arrays : List (List α)) (r : Nat) : List α := arrays.filterMap (·[r]?)

/-- Rows read from arrays, which must have one length and match the schema in number. -/
def ofColumns (schema : Schema) (columns keys : List (List Value)) (flags : List (List Bool)) :
    Except ShapeFault Split :=
  if columns.length ≠ schema.columns.length then
    .error (.columnCount columns.length schema.columns.length)
  else if keys.length ≠ schema.keys.length ∨ flags.length ≠ schema.keys.length then
    .error (.keyCount keys.length flags.length schema.keys.length)
  else
    let count := ((columns.head?.or keys.head?).map List.length).getD 0
    if (columns ++ keys).any (·.length ≠ count) || flags.any (·.length ≠ count) then .error .ragged
    else
      .ok { schema, rows := (List.range count).map fun r =>
        ⟨across columns r, across keys r, across flags r⟩ }

def pushKeyed (s : Split) (values : List Value) (keys : List (Option Value)) :
    Except ShapeFault Split :=
  if values.length ≠ s.schema.columns.length then
    .error (.rowWidth values.length s.schema.columns.length)
  else if keys.length ≠ s.schema.keys.length then
    .error (.rowKeys keys.length s.schema.keys.length)
  else .ok { s with rows := s.rows ++ [Row.withKeys values keys] }

/-- A row without keys gets absent ones. -/
def push (s : Split) (values : List Value) : Except ShapeFault Split :=
  s.pushKeyed values (List.replicate s.schema.keys.length none)

def append (s other : Split) : Except ShapeFault Split :=
  if other.schema.columns.length ≠ s.schema.columns.length ∨
      other.schema.keys.length ≠ s.schema.keys.length then
    .error (.appendShape other.schema.columns.length other.schema.keys.length
      s.schema.columns.length s.schema.keys.length)
  else .ok { s with rows := s.rows ++ other.rows }

/-- Rows `start ..< stop`, as far as they exist. -/
def slice (s : Split) (start stop : Nat) : Split :=
  { s with rows := (s.rows.take stop).drop start }

def withoutKeys (s : Split) : Split :=
  { schema := s.schema.withoutKeys, rows := s.rows.map Row.withoutKeys }

/-- Moves a row out and leaves nulls behind; its flags stay. -/
def take? (s : Split) (r : Nat) : Option (Row × Split) := do
  let row ← s.rows[r]?
  let hollow : Row := ⟨row.values.map fun _ => .null, row.keys.map fun _ => .null, row.flags⟩
  return (row, { s with rows := s.rows.set r hollow })

/-- Puts an entry, say a row, behind all entries of a reversed sorted list that do not sort after it. -/
def insertBack {α : Type} (cmp : α → α → Ordering) (r : α) : List α → List α
  | [] => [r]
  | t :: ts => if cmp r t = .lt then t :: insertBack cmp r ts else r :: t :: ts

/-- Stable sort: each entry goes behind those before it that it is not less than. -/
def stableSort {α : Type} (cmp : α → α → Ordering) (rows : List α) : List α :=
  (rows.foldl (fun sorted r => insertBack cmp r sorted) []).reverse

/-- Stable sort by the keys of the rows; a split without keys stays as it is. -/
def sort (s : Split) : Split :=
  if s.hasKeys then { s with rows := stableSort (compareKeys s.orders) s.rows } else s

end Split
end QueryCluster
