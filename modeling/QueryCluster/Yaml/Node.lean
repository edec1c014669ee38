import QueryCluster.Yaml.Token

/-!
# Documents of a YAML text

The tree of nodes that the tokens of a text spell. A text holds one document. Anchors are numbered
by the distinct names in use before them, and an alias means the last node of its number.
-/
namespace QueryCluster.Yaml

inductive Node where
  | scalar (tag : Option String) (plain : Bool) (text : String)
  | sequence (tag : Option String) (items : List Node)
  | mapping (tag : Option String) (entries : List (Node × Node))
  | reference (number : Nat)
  deriving Repr

/-- The node that stands where none is written. -/
def Node.missing : Node := .scalar none true ""

structure Document where
  /-- No node for a text without content. -/
  root? : Option Node
  targets : List (Nat × Node)
  /-- Scalars and aliases count once, collections twice: where they begin and where they end. -/
  marks : Nat

def Document.target? (d : Document) (number : Nat) : Option Node := d.targets.lookup number

structure Composer where
  rest : List Token
  handles : List (String × String) := []
  /-- Anchor names in use, each with its number. -/
  names : List (String × Nat) := []
  /-- The number of each anchored node, by order of appearance, last first. -/
  anchored : List Nat := []
  /-- Anchored nodes that are complete, by order of appearance. -/
  complete : List (Nat × Node) := []
  marks : Nat := 0

namespace Composer

abbrev Compose := StateT Composer Option

def peek : Compose (Option Token) := return (← get).rest.head?
def skip : Compose Unit := modify fun s => { s with rest := s.rest.drop 1 }
def count (n : Nat) : Compose Unit := modify fun s => { s with marks := s.marks + n }

def missing : Compose Node := do
  count 1
  return .missing

/-- Numbers an anchor and gives its place in the order of appearance. -/
def drop (name : String) : Compose Nat := do
  let s ← get
  let number := s.names.length
  set { s with
    names := if (s.names.lookup name).isSome
      then s.names.map fun (n, k) => (n, if n == name then number else k)
      else (name, number) :: s.names
    anchored := number :: s.anchored }
  return s.anchored.length

def fasten (anchor : Option Nat) (n : Node) : Compose Node := do
  if let some place := anchor then modify fun s => { s with complete := (place, n) :: s.complete }
  return n

def resolveTag (handle suffix : String) : Compose String := do
  if handle.isEmpty then return suffix
  else match (← get).handles.lookup handle with
    | some text => return text ++ suffix
    | none => failure

def takeAnchor : Compose (Option Nat) := do
  match ← peek with
  | some (.anchor name) =>
    skip
    return some (← drop name)
  | _ => return none

def takeTag : Compose (Option String) := do
  match ← peek with
  | some (.tag handle suffix) =>
    skip
    return some (← resolveTag handle suffix)
  | _ => return none

/-- An anchor and a tag in either order. -/
def takeProperties : Compose (Option Nat × Option String) := do
  match ← takeAnchor with
  | some a => return (some a, ← takeTag)
  | none =>
    let tag ← takeTag
    return (← (if tag.isSome then takeAnchor else pure none), tag)

/-- Whether no node is written before the next token, one of `ends` or the end of the text. -/
def endsBefore (ends : List Token) : Compose Bool := return (← peek).any ends.contains

mutual
/-- One node. Block collections stand only in block context, and entries without indentation of
their own only as parts of a block mapping. -/
def node : (fuel : Nat) → (block indentless : Bool) → Compose Node
  | 0, _, _ => failure
  | fuel + 1, block, indentless => do
    if let some (.reference name) ← peek then
      skip
      count 1
      match (← get).names.lookup name with
      | some number => return .reference number
      | none => failure
    else
      let (anchor, tag) ← takeProperties
      let token ← peek
      if indentless && token == some .blockEntry then
        count 2
        fasten anchor (.sequence tag (← indentlessItems fuel))
      else match token with
      | some (.scalar plain text) =>
        skip
        count 1
        fasten anchor (.scalar (tag.filter (· != "!")) plain text)
      | some .openSequence =>
        skip
        count 2
        fasten anchor (.sequence tag (← flowItems fuel true))
      | some .openMapping =>
        skip
        count 2
        fasten anchor (.mapping tag (← flowEntries fuel true))
      | some .blockSequence =>
        if !block then failure
        else
          skip
          count 2
          fasten anchor (.sequence tag (← blockItems fuel))
      | some .blockMapping =>
        if !block then failure
        else
          skip
          count 2
          fasten anchor (.mapping tag (← blockEntries fuel))
      | _ =>
        if anchor.isNone && tag.isNone then failure
        else
          count 1
          fasten anchor (.scalar tag true "")

def nodeUnless : (fuel : Nat) → (ends : List Token) → (block indentless : Bool) → Compose Node
  | 0, _, _, _ => failure
  | fuel + 1, ends, block, indentless => do
    if ← endsBefore ends then missing else node fuel block indentless

def blockItems : (fuel : Nat) → Compose (List Node)
  | 0 => failure
  | fuel + 1 => do
    match ← peek with
    | some .blockEntry =>
      skip
      let n ← nodeUnless fuel [.blockEntry, .blockEnd] true false
      return n :: (← blockItems fuel)
    | some .blockEnd =>
      skip
      return []
    | _ => failure

def indentlessItems : (fuel : Nat) → Compose (List Node)
  | 0 => failure
  | fuel + 1 => do
    match ← peek with
    | some .blockEntry =>
      skip
      let n ← nodeUnless fuel [.blockEntry, .key, .value, .blockEnd] true false
      return n :: (← indentlessItems fuel)
    | _ => return []

def blockEntries : (fuel : Nat) → Compose (List (Node × Node))
  | 0 => failure
  | fuel + 1 => do
    match ← peek with
    | some .key =>
      skip
      let k ← nodeUnless fuel [.key, .value, .blockEnd] true true
      let v ← blockValue fuel
      return (k, v) :: (← blockEntries fuel)
    | some .blockEnd =>
      skip
      return []
    | _ => failure

def blockValue : (fuel : Nat) → Compose Node
  | 0 => failure
  | fuel + 1 => do
    if (← peek) == some .value then
      skip
      nodeUnless fuel [.key, .value, .blockEnd] true true
    else missing

def flowValue : (fuel : Nat) → (ends : List Token) → Compose Node
  | 0, _ => failure
  | fuel + 1, ends => do
    if (← peek) == some .value then
      skip
      nodeUnless fuel ends false false
    else missing

def flowItems : (fuel : Nat) → (first : Bool) → Compose (List Node)
  | 0, _ => failure
  | fuel + 1, first => do
    if (← peek) == some .closeSequence then
      skip
      return []
    else
      if !first then
        if (← peek) == some .flowEntry then skip else failure
      match ← peek with
      | some .closeSequence =>
        skip
        return []
      | some .key =>
        skip
        count 2
        let pair ← flowPair fuel
        return .mapping none [pair] :: (← flowItems fuel false)
      | _ =>
        let n ← node fuel false false
        return n :: (← flowItems fuel false)

/-- A mapping of one entry inside a flow sequence. Where its key is missing, the token that shows
this is passed over. -/
def flowPair : (fuel : Nat) → Compose (Node × Node)
  | 0 => failure
  | fuel + 1 => do
    let k ← if ← endsBefore [.value, .flowEntry, .closeSequence] then do
        skip
        missing
      else node fuel false false
    return (k, ← flowValue fuel [.flowEntry, .closeSequence])

def flowEntries : (fuel : Nat) → (first : Bool) → Compose (List (Node × Node))
  | 0, _ => failure
  | fuel + 1, first => do
    if (← peek) == some .closeMapping then
      skip
      return []
    else
      if !first then
        if (← peek) == some .flowEntry then skip else failure
      match ← peek with
      | some .closeMapping =>
        skip
        return []
      | some .key =>
        skip
        let k ← nodeUnless fuel [.value, .flowEntry, .closeMapping] false false
        let v ← flowValue fuel [.flowEntry, .closeMapping]
        return (k, v) :: (← flowEntries fuel false)
      | _ =>
        let k ← node fuel false false
        let v ← missing
        return (k, v) :: (← flowEntries fuel false)
end

/-- Directives before a document: at most one version, 1.1 or 1.2, and each handle once. -/
def directives : (fuel : Nat) → (versioned : Bool) → Compose Unit
  | 0, _ => failure
  | fuel + 1, versioned => do
    match ← peek with
    | some (.version major minor) =>
      if versioned || major != 1 || !(minor == 1 || minor == 2) then failure
      else
        skip
        directives fuel true
    | some (.tagHandle handle text) =>
      if ((← get).handles.lookup handle).isSome then failure
      else
        skip
        modify fun s => { s with handles := s.handles ++ [(handle, text)] }
        directives fuel versioned
    | _ => return ()

def standardHandles : List (String × String) := [("!", "!"), ("!!", "tag:yaml.org,2002:")]

def isDirective : Token → Bool
  | .version .. | .tagHandle .. => true
  | _ => false

def content (fuel : Nat) : Compose Node := do
  let bare := (← peek).all fun t => t == .documentStart || t == .documentEnd || isDirective t
  if bare then missing else node fuel true false

def document (fuel : Nat) : Compose (Option Node) := do
  match ← peek with
  | none => return none
  | some t =>
    let explicit := t == .documentStart || isDirective t
    if explicit then
      directives fuel false
      if (← peek) != some .documentStart then failure
      skip
    modify fun s => { s with handles := s.handles ++ standardHandles }
    let n ← if explicit then content fuel else node fuel true false
    modify fun s => { s with rest := s.rest.dropWhile (· == .documentEnd) }
    if (← peek).isSome then failure
    return some n

end Composer

/-- The document of a text; `none` if the text is malformed or holds more than one. -/
def document? (text : String) : Option Document := do
  let tokens ← tokens? text
  let (root?, s) ← (Composer.document (4 * tokens.length + 8)).run { rest := tokens }
  let numbered := s.anchored.reverse.zipIdx.filterMap fun (number, place) =>
    (s.complete.lookup place).map fun n => (number, n)
  return { root?, targets := numbered.reverse, marks := max s.marks 1 }

end QueryCluster.Yaml
