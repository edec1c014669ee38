import QueryCluster.Content
import QueryCluster.Number.Float

/-!
# Reading JSON

A value is read into contents, at most 127 levels deep. What nobody asks for is only passed over:
its depth, the range of its numbers and the pairing of its surrogates do not matter.
-/
namespace QueryCluster.Json

def isSpace (c : Char) : Bool := c == ' ' || c == '\n' || c == '\t' || c == '\r'

def skipSpace (cs : List Char) : List Char := cs.dropWhile isSpace

def hexValue? (c : Char) : Option Nat :=
  if c.isDigit then some (c.toNat - 48)
  else if 'a' ≤ c ∧ c ≤ 'f' then some (c.toNat - 87)
  else if 'A' ≤ c ∧ c ≤ 'F' then some (c.toNat - 55)
  else none

def hex4? : List Char → Option (Nat × List Char)
  | a :: b :: c :: d :: cs => do
    let w ← hexValue? a
    let x ← hexValue? b
    let y ← hexValue? c
    let z ← hexValue? d
    return (((w * 16 + x) * 16 + y) * 16 + z, cs)
  | _ => none

def simpleEscape? : Char → Option Char
  | '"' => some '"'
  | '\\' => some '\\'
  | '/' => some '/'
  | 'b' => some '\x08'
  | 'f' => some '\x0c'
  | 'n' => some '\n'
  | 'r' => some '\r'
  | 't' => some '\t'
  | _ => none

/-- The character behind an escaped `u`; the halves of a pair must stand together. -/
def unicodeEscape? (cs : List Char) : Option (Char × List Char) := do
  let (n, cs) ← hex4? cs
  if 0xdc00 ≤ n ∧ n ≤ 0xdfff then none
  else if 0xd800 ≤ n ∧ n ≤ 0xdbff then
    match cs with
    | '\\' :: 'u' :: cs =>
      let (m, cs) ← hex4? cs
      if 0xdc00 ≤ m ∧ m ≤ 0xdfff then
        return (Char.ofNat (0x10000 + (n - 0xd800) * 1024 + (m - 0xdc00)), cs)
      else none
    | _ => none
  else return (Char.ofNat n, cs)

/-- The text up to the closing quote. The number of characters is fuel enough. -/
def textBody? : (fuel : Nat) → List Char → Option (List Char × List Char)
  | 0, _ => none
  | fuel + 1, cs =>
    match cs with
    | [] => none
    | '"' :: rest => some ([], rest)
    | '\\' :: 'u' :: rest => do
      let (c, rest) ← unicodeEscape? rest
      let (text, rest) ← textBody? fuel rest
      return (c :: text, rest)
    | '\\' :: e :: rest => do
      let c ← simpleEscape? e
      let (text, rest) ← textBody? fuel rest
      return (c :: text, rest)
    | c :: rest =>
      if c == '\\' || c.toNat < 32 then none
      else do
        let (text, rest) ← textBody? fuel rest
        return (c :: text, rest)

/-- Passes over a text without reading its pairs. -/
def skipText? : (fuel : Nat) → List Char → Option (List Char)
  | 0, _ => none
  | fuel + 1, cs =>
    match cs with
    | [] => none
    | '"' :: rest => some rest
    | '\\' :: 'u' :: rest => do
      let (_, rest) ← hex4? rest
      skipText? fuel rest
    | '\\' :: e :: rest => if (simpleEscape? e).isSome then skipText? fuel rest else none
    | c :: rest => if c == '\\' || c.toNat < 32 then none else skipText? fuel rest

/-- A number as it is written. -/
structure Numeral where
  negative : Bool
  whole : List Char
  /-- Fraction and exponent, as written. -/
  tail : List Char

def digits? (cs : List Char) : Option (List Char × List Char) :=
  let ds := cs.takeWhile Char.isDigit
  if ds.isEmpty then none else some (ds, cs.drop ds.length)

def fraction? : List Char → Option (List Char × List Char)
  | '.' :: cs => do
    let (ds, cs) ← digits? cs
    return ('.' :: ds, cs)
  | cs => some ([], cs)

def exponent? : List Char → Option (List Char × List Char)
  | e :: cs =>
    if e == 'e' || e == 'E' then do
      let (sign, cs) := match cs with
        | '+' :: cs => (['+'], cs)
        | '-' :: cs => (['-'], cs)
        | cs => ([], cs)
      let (ds, cs) ← digits? cs
      return (e :: sign ++ ds, cs)
    else some ([], e :: cs)
  | [] => some ([], [])

/-- More than one digit with a zero in front is no number. -/
def numeral? (cs : List Char) : Option (Numeral × List Char) := do
  let (negative, cs) := match cs with
    | '-' :: cs => (true, cs)
    | cs => (false, cs)
  let (whole, cs) ← digits? cs
  if whole.length > 1 && whole.head? == some '0' then none
  else
    let (fraction, cs) ← fraction? cs
    let (exponent, cs) ← exponent? cs
    return (⟨negative, whole, fraction ++ exponent⟩, cs)

/-- A real number must not be too large for a double; minus zero is one. -/
def Numeral.content? (n : Numeral) : Option Content :=
  let size := n.whole.foldl (fun v d => v * 10 + (d.toNat - 48)) 0
  if n.tail.isEmpty && !n.negative && size < UInt64.size then some (.unsigned (UInt64.ofNat size))
  else if n.tail.isEmpty && n.negative && 0 < size && size ≤ 1 <<< 63 then
    some (.signed (Int64.ofInt (-size)))
  else match Double.read (n.whole ++ n.tail) with
    | .ok x => if Number.BinaryFormat.double.isInfinite x.bits.toNat then none else some .real
    | .error _ => none

def literal? (cs : List Char) : Option (Content × List Char) :=
  if "null".toList.isPrefixOf cs then some (.null, cs.drop 4)
  else if "true".toList.isPrefixOf cs then some (.bool true, cs.drop 4)
  else if "false".toList.isPrefixOf cs then some (.bool false, cs.drop 5)
  else none

def skipNumber? (cs : List Char) : Option (List Char) := (numeral? cs).map (·.2)

/-- The key of an entry and its colon. -/
def key? (cs : List Char) : Option (String × List Char) :=
  match skipSpace cs with
  | '"' :: cs => do
    let (k, cs) ← textBody? (cs.length + 1) cs
    match skipSpace cs with
    | ':' :: cs => return (String.ofList k, cs)
    | _ => none
  | _ => none

mutual
/-- A value; `depth` collections may still be opened. -/
def value? : (fuel depth : Nat) → List Char → Option (Content × List Char)
  | 0, _, _ => none
  | fuel + 1, depth, cs =>
    match skipSpace cs, depth with
    | '"' :: cs, _ => do
      let (s, cs) ← textBody? (cs.length + 1) cs
      return (.text (String.ofList s), cs)
    | '[' :: _, 0 => none
    | '\x7b' :: _, 0 => none
    | '[' :: cs, depth + 1 => do
      match skipSpace cs with
      | ']' :: cs => return (.list [], cs)
      | cs =>
        let (items, cs) ← items? fuel depth cs
        return (.list items, cs)
    | '\x7b' :: cs, depth + 1 => do
      match skipSpace cs with
      | '\x7d' :: cs => return (.map [], cs)
      | cs =>
        let (entries, cs) ← entries? fuel depth cs
        return (.map entries, cs)
    | c :: cs, _ =>
      if c == '-' || c.isDigit then do
        let (n, cs) ← numeral? (c :: cs)
        return (← n.content?, cs)
      else literal? (c :: cs)
    | [], _ => none

def items? : (fuel depth : Nat) → List Char → Option (List Content × List Char)
  | 0, _, _ => none
  | fuel + 1, depth, cs => do
    let (v, cs) ← value? fuel depth cs
    match skipSpace cs with
    | ',' :: cs =>
      let (rest, cs) ← items? fuel depth cs
      return (v :: rest, cs)
    | ']' :: cs => return ([v], cs)
    | _ => none

def entries? : (fuel depth : Nat) → List Char → Option (List (Content × Content) × List Char)
  | 0, _, _ => none
  | fuel + 1, depth, cs => do
    let (k, cs) ← key? cs
    let (v, cs) ← value? fuel depth cs
    match skipSpace cs with
    | ',' :: cs =>
      let (rest, cs) ← entries? fuel depth cs
      return ((.text k, v) :: rest, cs)
    | '\x7d' :: cs => return ([(.text k, v)], cs)
    | _ => none
end

mutual
/-- Passes over a value. -/
def skip? : (fuel : Nat) → List Char → Option (List Char)
  | 0, _ => none
  | fuel + 1, cs =>
    match skipSpace cs with
    | '"' :: cs => skipText? (cs.length + 1) cs
    | '[' :: cs =>
      match skipSpace cs with
      | ']' :: cs => some cs
      | cs => skipItems? fuel cs
    | '\x7b' :: cs =>
      match skipSpace cs with
      | '\x7d' :: cs => some cs
      | cs => skipEntries? fuel cs
    | c :: cs =>
      if c == '-' || c.isDigit then skipNumber? (c :: cs)
      else (literal? (c :: cs)).map (·.2)
    | [] => none

def skipItems? : (fuel : Nat) → List Char → Option (List Char)
  | 0, _ => none
  | fuel + 1, cs => do
    let cs ← skip? fuel cs
    match skipSpace cs with
    | ',' :: cs => skipItems? fuel cs
    | ']' :: cs => return cs
    | _ => none

def skipEntries? : (fuel : Nat) → List Char → Option (List Char)
  | 0, _ => none
  | fuel + 1, cs => do
    match skipSpace cs with
    | '"' :: cs =>
      let cs ← skipText? (cs.length + 1) cs
      match skipSpace cs with
      | ':' :: cs =>
        let cs ← skip? fuel cs
        match skipSpace cs with
        | ',' :: cs => skipEntries? fuel cs
        | '\x7d' :: cs => return cs
        | _ => none
      | _ => none
    | _ => none
end

def depthLimit : Nat := 127

/-- The contents of a text that holds one value and blanks around it. -/
def content? (text : String) : Option Content := do
  let cs := text.toList
  let (c, rest) ← value? (2 * cs.length + 2) depthLimit cs
  if (skipSpace rest).isEmpty then return c else none

/-- Entries of a map whose known keys are read and whose other keys are passed over. -/
def knownEntries? (names : List String) :
    (fuel : Nat) → List Char → Option (List (Content × Content) × List Char)
  | 0, _ => none
  | fuel + 1, cs => do
    let (k, cs) ← key? cs
    let (entry, cs) ← if names.contains k then do
        let (v, cs) ← value? fuel (depthLimit - 1) cs
        pure ([(Content.text k, v)], cs)
      else do pure ([], ← skip? fuel cs)
    match skipSpace cs with
    | ',' :: cs =>
      let (rest, cs) ← knownEntries? names fuel cs
      return (entry ++ rest, cs)
    | '\x7d' :: cs => return (entry, cs)
    | _ => none

/-- The fields of a record that is the whole text. -/
def record? (names : List String) (text : String) : Option Fields := do
  let cs := text.toList
  let fuel := 2 * cs.length + 2
  let (c, rest) ← match skipSpace cs with
    | '\x7b' :: cs => match skipSpace cs with
      | '\x7d' :: cs => pure (Content.map [], cs)
      | cs => do
        let (entries, cs) ← knownEntries? names fuel cs
        pure (Content.map entries, cs)
    | cs => value? fuel depthLimit cs
  if (skipSpace rest).isEmpty then Fields.ofContent? names c else none

end QueryCluster.Json
