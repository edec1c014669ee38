import QueryCluster.Yaml.Scalar

/-!
# Tokens of a YAML text

Indentation becomes block tokens. A key may stand before its colon without a mark of its own: the
scanner remembers where such a key could have begun and puts the mark there when it meets the
colon. A key of this kind stays on one line and within 1024 characters.
-/
namespace QueryCluster.Yaml

inductive Token where
  | version (major minor : Nat)
  | tagHandle (handle replacement : String)
  | documentStart
  | documentEnd
  | blockSequence
  | blockMapping
  | blockEnd
  | openSequence
  | closeSequence
  | openMapping
  | closeMapping
  | blockEntry
  | flowEntry
  | key
  | value
  | reference (name : String)
  | anchor (name : String)
  | tag (handle suffix : String)
  | scalar (plain : Bool) (text : String)
  deriving DecidableEq, Repr

/-- Where a key could have begun: its token position, and whether only a key may stand there. -/
structure PossibleKey where
  position : Nat
  required : Bool
  line : Nat
  index : Nat
  column : Nat
  deriving Repr

structure Scanner where
  cursor : Cursor
  /-- Columns of the open block collections, innermost first. -/
  indents : List Nat := []
  /-- The possible key of each flow level, innermost first; the last is that of block context. -/
  keys : List (Option PossibleKey) := [none]
  keyAllowed : Bool := true
  tokens : Array Token := #[]

namespace Scanner

abbrev Scan := StateT Scanner Option

def inFlow (s : Scanner) : Bool := 1 < s.keys.length
def indent? (s : Scanner) : Option Nat := s.indents.head?

def here : Scan Cursor := return (← get).cursor
def moveTo (c : Cursor) : Scan Unit := modify fun s => { s with cursor := c }
def skip (n : Nat) : Scan Unit := modify fun s => { s with cursor := s.cursor.skip n }
def emit (t : Token) : Scan Unit := modify fun s => { s with tokens := s.tokens.push t }
def allowKey (b : Bool) : Scan Unit := modify fun s => { s with keyAllowed := b }
def require (b : Bool) : Scan Unit := if b then return () else failure

def PossibleKey.isStale (k : PossibleKey) (c : Cursor) : Bool :=
  k.line < c.line || k.index + 1024 < c.index

/-- Drops possible keys that the cursor has left behind. -/
def dropStaleKeys : Scan Unit := do
  let s ← get
  let stale := s.keys.map fun (k : Option PossibleKey) => k.filter (PossibleKey.isStale · s.cursor)
  require (!stale.any fun k => k.any (·.required))
  set { s with keys := s.keys.map fun (k : Option PossibleKey) => k.filter fun k => !PossibleKey.isStale k s.cursor }

def setKey (k : Option PossibleKey) : Scan Unit :=
  modify fun s => { s with keys := k :: s.keys.drop 1 }

/-- Gives up the possible key of this level, which must not be a required one. -/
def dropKey : Scan Unit := do
  require (!(← get).keys.head?.join.any (·.required))
  setKey none

def saveKey : Scan Unit := do
  let s ← get
  if s.keyAllowed then
    dropKey
    setKey (some {
      position := s.tokens.size
      required := !s.inFlow && s.indent? == some s.cursor.column
      line := s.cursor.line
      index := s.cursor.index
      column := s.cursor.column })

def insertAt (n : Nat) (t : Token) : Scan Unit :=
  modify fun s => { s with tokens := s.tokens.extract 0 n ++ #[t] ++ s.tokens.extract n }

/-- Opens a block collection at a column deeper than the current one. -/
def indentTo (column position : Nat) (t : Token) : Scan Unit := do
  let s ← get
  if !s.inFlow && s.indent?.all (· < column) then
    set { s with indents := column :: s.indents }
    insertAt position t

/-- Closes the block collections deeper than `column`; without a column, all of them. -/
def closeTo (column : Option Nat) : Scan Unit := do
  let s ← get
  if !s.inFlow then
    let open_ := s.indents.takeWhile fun i => column.all (· < i)
    set { s with
      indents := s.indents.drop open_.length
      tokens := s.tokens ++ (open_.map fun _ => Token.blockEnd).toArray }

/-- Passes blanks, comments and line breaks. Tabs may not indent. -/
def skipSpace : (fuel : Nat) → Scan Unit
  | 0 => return ()
  | fuel + 1 => do
    let s ← get
    let c := if s.cursor.index == 0 && s.cursor.sees (· == '\ufeff') 0 then s.cursor.skip 1 else s.cursor
    let tabs := s.inFlow || !s.keyAllowed
    let c := c.skipWhile fun d => d == ' ' || (tabs && d == '\t')
    let c := if c.sees (· == '#') 0 then c.skipWhile fun d => !isBreak d else c
    if c.sees isBreak 0 then
      set { s with cursor := c.skipBreak.2, keyAllowed := s.keyAllowed || !s.inFlow }
      skipSpace fuel
    else moveTo c

def takeName : Scan (List Char) := do
  let c ← here
  let name := c.rest.takeWhile isNameChar
  skip name.length
  return name

def isTagChar (verbatim : Bool) (c : Char) : Bool :=
  isNameChar c || ";/?:@&=+$.!~*'()%".toList.contains c || (verbatim && ",[]".toList.contains c)

/-- One byte of a percent escape. -/
def percentByte? : List Char → Option UInt8
  | ['%', a, b] => do return UInt8.ofNat (16 * (← hexDigitValue? a) + (← hexDigitValue? b))
  | _ => none

/-- Bytes of a tag, with percent escapes read. -/
def tagBytes : List Char → Option (List UInt8)
  | [] => some []
  | '%' :: a :: b :: cs => do return (← percentByte? ['%', a, b]) :: (← tagBytes cs)
  | ['%', _] => none
  | ['%'] => none
  | c :: cs => do return c.toString.toUTF8.data.toList ++ (← tagBytes cs)

def takeTagText (verbatim : Bool) (start : List Char) : Scan String := do
  let c ← here
  let text := c.rest.takeWhile (isTagChar verbatim)
  skip text.length
  match (tagBytes (start ++ text)).bind fun bs => String.fromUTF8? ⟨bs.toArray⟩ with
  | some s => return s
  | none => failure

def scanDirective : Scan Unit := do
  skip 1
  let name ← takeName
  require ((← here).atBlank 0)
  modify fun s => { s with cursor := s.cursor.skipWhile isSpace }
  if name == "YAML".toList then
    let number : Scan Nat := do
      let digits := (← here).rest.takeWhile Char.isDigit
      require (!digits.isEmpty && digits.length ≤ 9)
      skip digits.length
      return digits.foldl (fun n d => 10 * n + (d.toNat - 48)) 0
    let major ← number
    require ((← here).sees (· == '.') 0)
    skip 1
    emit (.version major (← number))
  else if name == "TAG".toList then
    require ((← here).sees (· == '!') 0)
    skip 1
    let middle ← takeName
    let closed := (← here).sees (· == '!') 0
    if closed then skip 1
    require (closed || middle.isEmpty)
    require ((← here).sees isSpace 0)
    modify fun s => { s with cursor := s.cursor.skipWhile isSpace }
    let text ← takeTagText true []
    require (!text.isEmpty && (← here).atBlank 0)
    emit (.tagHandle (String.ofList ('!' :: middle ++ if closed then ['!'] else [])) text)
  else failure
  modify fun s => { s with cursor := s.cursor.skipWhile isSpace }
  if (← here).sees (· == '#') 0 then
    modify fun s => { s with cursor := s.cursor.skipWhile fun d => !isBreak d }
  let c ← here
  require (c.rest.isEmpty || c.sees isBreak 0)
  moveTo c.skipBreak.2

def scanAnchor (token : String → Token) : Scan Unit := do
  skip 1
  let name ← takeName
  let c ← here
  require (!name.isEmpty && (c.atBlank 0 || c.sees (fun d => "?:,]\x7d%@\x60".toList.contains d) 0))
  emit (token (String.ofList name))

def scanTag : Scan Unit := do
  let c ← here
  let (handle, suffix) ← if c.sees (· == '<') 1 then do
      skip 2
      let text ← takeTagText true []
      require (!text.isEmpty && (← here).sees (· == '>') 0)
      skip 1
      pure ("", text)
    else do
      skip 1
      let middle ← takeName
      if (← here).sees (· == '!') 0 then
        skip 1
        let text ← takeTagText false []
        require (!text.isEmpty)
        pure (String.ofList ('!' :: middle ++ ['!']), text)
      else
        let text ← takeTagText false middle
        pure (if text.isEmpty then ("", "!") else ("!", text))
  let s ← get
  require (s.cursor.atBlank 0 || (s.inFlow && s.cursor.sees (· == ',') 0))
  emit (.tag handle suffix)

def openFlow (t : Token) : Scan Unit := do
  saveKey
  modify fun s => { s with keys := none :: s.keys, keyAllowed := true }
  skip 1
  emit t

def closeFlow (t : Token) : Scan Unit := do
  dropKey
  modify fun s => { s with keys := if s.inFlow then s.keys.drop 1 else s.keys, keyAllowed := false }
  skip 1
  emit t

/-- A block entry or an explicit key: a block collection may begin here. -/
def blockMark (collection mark : Token) (keyAfter : Scanner → Bool) : Scan Unit := do
  let s ← get
  if !s.inFlow then
    require s.keyAllowed
    indentTo s.cursor.column s.tokens.size collection
  dropKey
  allowKey (keyAfter s)
  skip 1
  emit mark

def scanValue : Scan Unit := do
  let s ← get
  match s.keys.head?.join with
  | some k =>
    insertAt k.position .key
    indentTo k.column k.position .blockMapping
    setKey none
    allowKey false
  | none =>
    if !s.inFlow then
      require s.keyAllowed
      indentTo s.cursor.column s.tokens.size .blockMapping
    allowKey (!s.inFlow)
  skip 1
  emit .value

def scanQuoted (single : Bool) : Scan Unit := do
  saveKey
  allowKey false
  skip 1
  let c ← here
  let (text, c) ← readQuoted single (c.rest.length + 1) [] c
  moveTo c
  emit (.scalar false (String.ofList text))

def scanBlock (literal : Bool) : Scan Unit := do
  dropKey
  allowKey true
  skip 1
  let s ← get
  let (text, c) ← readBlock literal s.indent? s.cursor
  moveTo c
  emit (.scalar false (String.ofList text))

def scanPlain : Scan Unit := do
  saveKey
  allowKey false
  let s ← get
  let indent := (s.indent?.map (· + 1)).getD 0
  let (text, broken, c) ← readPlain s.inFlow indent (s.cursor.rest.length + 1) [] {} s.cursor
  moveTo c
  if broken then allowKey true
  emit (.scalar true (String.ofList text))

def marker (t : Token) : Scan Unit := do
  closeTo none
  dropKey
  allowKey false
  skip 3
  emit t

/-- Whether a plain scalar may begin with `d`. -/
def startsPlain (s : Scanner) (d : Char) : Bool :=
  !(isSpace d || "-?:,[]\x7b\x7d#&*!|>'\"%@\x60".toList.contains d) ||
    (d == '-' && !s.cursor.sees isSpace 1) ||
    (!s.inFlow && (d == '?' || d == ':') && !s.cursor.atBlank 1)

def scanToken (d : Char) : Scan Unit := do
  let s ← get
  let c := s.cursor
  let apart := c.atBlank 1
  if c.column == 0 && d == '%' then
    closeTo none
    dropKey
    allowKey false
    scanDirective
  else if c.atMarker ['-', '-', '-'] then marker .documentStart
  else if c.atMarker ['.', '.', '.'] then marker .documentEnd
  else if d == '[' then openFlow .openSequence
  else if d == '\x7b' then openFlow .openMapping
  else if d == ']' then closeFlow .closeSequence
  else if d == '\x7d' then closeFlow .closeMapping
  else if d == ',' then
    dropKey
    allowKey true
    skip 1
    emit .flowEntry
  else if d == '-' && apart then blockMark .blockSequence .blockEntry fun _ => true
  else if d == '?' && (s.inFlow || apart) then blockMark .blockMapping .key fun s => !s.inFlow
  else if d == ':' && (s.inFlow || apart) then scanValue
  else if d == '*' then
    saveKey
    allowKey false
    scanAnchor .reference
  else if d == '&' then
    saveKey
    allowKey false
    scanAnchor .anchor
  else if d == '!' then
    saveKey
    allowKey false
    scanTag
  else if d == '|' && !s.inFlow then scanBlock true
  else if d == '>' && !s.inFlow then scanBlock false
  else if d == '\'' then scanQuoted true
  else if d == '"' then scanQuoted false
  else if startsPlain s d then scanPlain
  else failure

/-- Every token takes at least one character, so the length of the text is fuel enough. -/
def scanAll : (fuel : Nat) → Scan Unit
  | 0 => failure
  | fuel + 1 => do
    skipSpace (fuel + 1)
    dropStaleKeys
    let s ← get
    closeTo (if s.cursor.rest.isEmpty then none else some s.cursor.column)
    match s.cursor.rest with
    | [] => dropKey
    | d :: _ =>
      scanToken d
      scanAll fuel

end Scanner

/-- The tokens of a text; `none` if it is malformed. A leading byte order mark is passed over. -/
def tokens? (text : String) : Option (List Token) :=
  let cs := match text.toList with
    | '\ufeff' :: cs => cs
    | cs => cs
  if !cs.all isPrintable then none
  else ((Scanner.scanAll (cs.length + 1)).run { cursor := { rest := cs } }).map (·.2.tokens.toList)

end QueryCluster.Yaml
