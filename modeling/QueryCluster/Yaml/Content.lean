import QueryCluster.Content
import QueryCluster.Number.Float
import QueryCluster.Yaml.Node

/-!
# What the nodes of a document mean

Plain scalars stand for null, truth values and numbers where they look like them; all other scalars
are text. A standard tag decides the kind itself. A value tagged with an application's own tag has
no meaning here. Visiting a document follows its aliases, at most a hundred for each mark of the
document and no more than 128 collections deep.
-/
namespace QueryCluster.Yaml

/-- The value of a text of digits in a base of up to sixteen. -/
def digitsIn? (base : Nat) (cs : List Char) : Option Nat :=
  if cs.isEmpty then none
  else cs.foldlM (fun n c => (hexDigitValue? c).bind fun d => if d < base then some (base * n + d) else none) 0

def stripSign : List Char → List Char
  | '+' :: cs => cs
  | '-' :: cs => cs
  | cs => cs

/-- More than one digit with a zero in front: such a text is no number. -/
def isZeroPadded (cs : List Char) : Bool :=
  match stripSign cs with
  | '0' :: c :: cs => (c :: cs).all Char.isDigit
  | _ => false

def based? : List Char → Option (Nat × List Char)
  | '0' :: 'x' :: cs => some (16, cs)
  | '0' :: 'o' :: cs => some (8, cs)
  | '0' :: 'b' :: cs => some (2, cs)
  | _ => none

/-- The size of a whole number without its sign. -/
def size? (cs : List Char) : Option Nat :=
  match based? cs with
  | some (base, ds) => digitsIn? base ds
  | none => if isZeroPadded cs then none else digitsIn? 10 cs

/-- A whole number: its sign and size. -/
def whole? : List Char → Option (Bool × Nat)
  | '+' :: cs => (size? cs).map ((false, ·))
  | '-' :: cs => (size? cs).map ((true, ·))
  | cs => (size? cs).map ((false, ·))

inductive NumberReading where
  | notNumber
  /-- A whole number that fits in 128 but not in 64 bits. -/
  | tooWide
  | number (c : Content)

def readWhole (cs : List Char) : NumberReading :=
  match whole? cs with
  | some (false, n) =>
    if n < UInt64.size then .number (.unsigned (UInt64.ofNat n))
    else if n < 1 <<< 128 then .tooWide else .notNumber
  | some (true, n) =>
    if n ≤ 1 <<< 63 then .number (.signed (Int64.ofInt (-n)))
    else if n ≤ 1 <<< 127 then .tooWide else .notNumber
  | none => .notNumber

def isReal (cs : List Char) : Bool :=
  let unsigned := match cs with | '+' :: cs => cs | cs => cs
  let doubled := match cs with | '+' :: '+' :: _ => true | '+' :: '-' :: _ => true | _ => false
  !doubled &&
    ([".inf", ".Inf", ".INF"].any (·.toList == unsigned) ||
      ["-.inf", "-.Inf", "-.INF", ".nan", ".NaN", ".NAN"].any (·.toList == cs) ||
      match Double.read unsigned with
      | .ok x => !Number.BinaryFormat.double.isNaN x.bits.toNat &&
          !Number.BinaryFormat.double.isInfinite x.bits.toNat
      | .error _ => false)

def nullWords : List String := ["null", "Null", "NULL", "~"]

def truth? (s : String) : Option Bool :=
  if ["true", "True", "TRUE"].contains s then some true
  else if ["false", "False", "FALSE"].contains s then some false
  else none

/-- What a plain scalar without a tag looks like. -/
def plainContent? (s : String) : Option Content :=
  if s.isEmpty || nullWords.contains s then some .null
  else match truth? s with
    | some b => some (.bool b)
    | none => match readWhole s.toList with
      | .number c => some c
      | .tooWide => none
      | .notNumber =>
        if !isZeroPadded s.toList && isReal s.toList then some .real else some (.text s)

/-- Tags of an application start with an exclamation mark. -/
def isLocalTag (tag : Option String) : Bool := tag.any (·.startsWith "!")

def scalarContent? (tag : Option String) (plain : Bool) (s : String) : Option Content :=
  match tag with
  | none => if plain then plainContent? s else some (.text s)
  | some "tag:yaml.org,2002:bool" => (truth? s).map .bool
  | some "tag:yaml.org,2002:int" => match readWhole s.toList with
    | .number c => some c
    | _ => none
  | some "tag:yaml.org,2002:float" => if isReal s.toList then some .real else none
  | some "tag:yaml.org,2002:null" => if nullWords.contains s then some .null else none
  | some tag => if isLocalTag (some tag) then none else some (.text s)

/-- The state counts the aliases that may still be followed. -/
abbrev Visit := StateT Nat Option

namespace Document

def follow (d : Document) : Node → Visit Node
  | .reference number => do
    match ← get with
    | 0 => failure
    | left + 1 =>
      set left
      match d.target? number with
      | some n => return n
      | none => failure
  | n => return n

def content (d : Document) (depth : Nat) (n : Node) : Visit Content := do
  match depth, ← d.follow n with
  | _, .scalar tag plain s =>
    match scalarContent? tag plain s with
    | some c => return c
    | none => failure
  | depth + 1, .sequence tag items =>
    if isLocalTag tag then failure
    else return .list (← items.mapM (content d depth))
  | depth + 1, .mapping tag entries =>
    if isLocalTag tag then failure
    else return .map (← entries.mapM fun (k, v) => return (← content d depth k, ← content d depth v))
  | _, _ => failure

/-- The text of a scalar, whatever it looks like. -/
def word (d : Document) (n : Node) : Visit String := do
  match ← d.follow n with
  | .scalar _ _ s => return s
  | _ => failure

def depthLimit : Nat := 128

def visit? {α : Type} (d : Document) (v : Visit α) : Option α :=
  (v.run (100 * d.marks)).map (·.1)

end Document

end QueryCluster.Yaml
