/-!
# Document contents

What a self-describing document holds, whatever its notation: null, truth values, numbers, text,
lists and maps. Records are read from maps by field name or from lists in field order.
-/
namespace QueryCluster

inductive Content where
  | null
  | bool (b : Bool)
  | unsigned (n : UInt64)
  | signed (i : Int64)
  /-- A number that is not whole. No document gives its value a meaning. -/
  | real
  | text (s : String)
  | list (items : List Content)
  | map (entries : List (Content × Content))
  deriving Repr, Inhabited

namespace Content

def text? : Content → Option String
  | .text s => some s
  | _ => none

def bool? : Content → Option Bool
  | .bool b => some b
  | _ => none

def natural? : Content → Option UInt64
  | .unsigned n => some n
  | .signed i => if 0 ≤ i.toInt then some (UInt64.ofNat i.toInt.toNat) else none
  | _ => none

def port? (c : Content) : Option UInt16 := do
  let n ← c.natural?
  if n.toNat < UInt16.size then return UInt16.ofNat n.toNat else none

def list? {α : Type} (f : Content → Option α) : Content → Option (List α)
  | .list items => items.mapM f
  | _ => none

def optional? {α : Type} (f : Content → Option α) : Content → Option (Option α)
  | .null => some none
  | c => (f c).map some

/-- A choice without contents: its name, or a map from its name to what stands for nothing. -/
def choice? {α : Type} (isNothing : Content → Bool) (choose : String → Option α) :
    Content → Option α
  | .text s => choose s
  | .map [(.text s, c)] => if isNothing c then choose s else none
  | _ => none

def isNull : Content → Bool
  | .null => true
  | _ => false

/-- Inside other contents an empty map stands for nothing too. -/
def isEmpty : Content → Bool
  | .null => true
  | .map [] => true
  | _ => false

/-- The field that a key names, by name or by number: `some none` for an unknown one. -/
def fieldIndex? (names : List String) : Content → Option (Option Nat)
  | .text s => some (names.idxOf? s)
  | .unsigned n => some (if n.toNat < names.length then some n.toNat else none)
  | _ => none

end Content

/-- The fields of a record as they were given. -/
structure Fields where
  values : List (Option Content)
  /-- Whether they came as a list, where only fields with a default may be left out. -/
  inOrder : Bool

namespace Fields

/-- No field twice; fields that the record does not have are passed over. -/
def put (names : List String) (fields : List (Option Content)) (entry : Content × Content) :
    Option (List (Option Content)) :=
  match entry.1.fieldIndex? names with
  | none => none
  | some none => some fields
  | some (some i) => if (fields[i]?.join).isSome then none else some (fields.set i (some entry.2))

def ofContent? (names : List String) : Content → Option Fields
  | .list items => if names.length < items.length then none else some ⟨items.map some, true⟩
  | .map entries => (entries.foldlM (put names) (names.map fun _ => none)).map (⟨·, false⟩)
  | _ => none

def at? (f : Fields) (i : Nat) : Option Content := f.values[i]?.join

/-- A field that must be there. -/
def required {α : Type} (f : Fields) (i : Nat) (read : Content → Option α) : Option α :=
  (f.at? i).bind read

/-- A field with a default. -/
def orElse {α : Type} (f : Fields) (i : Nat) (default : α) (read : Content → Option α) : Option α :=
  match f.at? i with
  | some c => read c
  | none => some default

/-- A field that may be null, and without a value is. -/
def nullable {α : Type} (f : Fields) (i : Nat) (read : Content → Option α) : Option (Option α) :=
  match f.at? i with
  | some c => c.optional? read
  | none => if f.inOrder then none else some none

end Fields
end QueryCluster
