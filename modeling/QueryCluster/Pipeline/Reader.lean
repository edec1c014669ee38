import QueryCluster.Pipeline.Basic
import QueryCluster.Yaml.Content

/-!
# Reading pipeline documents

The root of a document is a mapping with the key `steps`. A step is a mapping whose key `op` names
its kind, or a list of the kind and the fields in order. Unknown keys are ignored; a key given twice
is refused.
-/
namespace QueryCluster.Pipeline

open Yaml (Document Node Visit)

def ColumnEntry.ofContent? (c : Content) : Option ColumnEntry := do
  let f ← Fields.ofContent? ["name", "type"] c
  return ⟨← f.required 0 Content.text?, ← f.required 1 Content.text?⟩

/-- A text that may be null or left out. -/
def optionalText? (f : Fields) (i : Nat) : Option (Option String) :=
  f.orElse i none (Content.optional? Content.text?)

def AggregateEntry.ofContent? (c : Content) : Option AggregateEntry := do
  let f ← Fields.ofContent? ["func", "column", "alias"] c
  return ⟨← f.required 0 Content.text?, ← optionalText? f 1, ← optionalText? f 2⟩

def ScanEntry.ofContent? (c : Content) : Option ScanEntry := do
  let f ← Fields.ofContent? ["table", "catalog", "schema", "partitions", "columns", "filter"] c
  return {
    table := ← f.required 0 Content.text?
    catalog := ← optionalText? f 1
    schema := ← optionalText? f 2
    partitions := ← f.orElse 3 1 Content.natural?
    columns := ← f.required 4 (Content.list? ColumnEntry.ofContent?)
    filter := ← optionalText? f 5 }

def texts? : Content → Option (List String) := Content.list? Content.text?

def Step.ofContent? (op : String) (c : Content) : Option Step := do
  match op with
  | "scan" => return .scan (← ScanEntry.ofContent? c)
  | "filter" => return .filter (← (← Fields.ofContent? ["expr"] c).required 0 Content.text?)
  | "project" => return .project (← (← Fields.ofContent? ["columns"] c).required 0 texts?)
  | "group_by" =>
    let f ← Fields.ofContent? ["keys", "aggs"] c
    return .groupBy (← f.orElse 0 [] texts?)
      (← f.required 1 (Content.list? AggregateEntry.ofContent?))
  | "order_by" => return .orderBy (← (← Fields.ofContent? ["items"] c).required 0 texts?)
  | "limit" => return .limit (← (← Fields.ofContent? ["count"] c).required 0 Content.natural?)
  | _ => none

def isOp : Content → Bool
  | .text s => s == "op"
  | _ => false

/-- The entries of a step, the one that names its kind apart. -/
def readEntries (d : Document) (depth : Nat) :
    List (Node × Node) → Option String → List (Content × Content) →
    Visit (Option String × List (Content × Content))
  | [], op, entries => return (op, entries.reverse)
  | (k, v) :: rest, op, entries => do
    let key ← d.content depth k
    if isOp key then
      if op.isSome then failure
      else readEntries d depth rest (some (← d.word v)) entries
    else readEntries d depth rest op ((key, ← d.content depth v) :: entries)

def readStep (d : Document) (depth : Nat) (n : Node) : Visit Step := do
  let (op, c) ← match depth, ← d.follow n with
    | depth + 1, .mapping tag entries =>
      if Yaml.isLocalTag tag then failure
      else
        let (op, entries) ← readEntries d depth entries none []
        match op with
        | some op => pure (op, Content.map entries)
        | none => failure
    | depth + 1, .sequence tag (op :: items) =>
      if Yaml.isLocalTag tag then failure
      else
        let op ← d.word op
        pure (op, Content.list (← items.mapM (d.content depth)))
    | _, _ => failure
  match Step.ofContent? op c with
  | some s => return s
  | none => failure

def readSteps (d : Document) (depth : Nat) (n : Node) : Visit (List Step) := do
  match depth, ← d.follow n with
  | depth + 1, .sequence _ items => items.mapM (readStep d depth)
  | _, .scalar _ true "" => return []
  | _, _ => failure

def readRoot (d : Document) (depth : Nat) : List (Node × Node) → Option (List Step) →
    Visit (List Step)
  | [], some steps => return steps
  | [], none => failure
  | (k, v) :: rest, steps => do
    if (← d.word k) == "steps" then
      if steps.isSome then failure
      else readRoot d depth rest (some (← readSteps d depth v))
    else readRoot d depth rest steps

/-- The steps of a document; `none` for a text that is no pipeline document. -/
def read? (text : String) : Option (List Step) := do
  let d ← Yaml.document? text
  match ← d.root? with
  | .mapping _ entries => d.visit? (readRoot d (Yaml.Document.depthLimit - 1) entries none)
  | _ => none

end QueryCluster.Pipeline
