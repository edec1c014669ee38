import QueryCluster.Yaml.Cursor

/-!
# Scalars of a YAML text

Plain, quoted and block scalars with their line folding. A line break inside a scalar becomes a
space, and of several line breaks all but the first are kept. Every reader takes fuel for the
characters that are left, and fails only for a malformed text.
-/
namespace QueryCluster.Yaml

/-- Blanks and line breaks met between two words of a scalar. -/
structure Gap where
  blanks : List Char := []
  first : List Char := []
  later : List Char := []
  broken : Bool := false

/-- What the gap contributes to the text. -/
def Gap.fold (g : Gap) : List Char :=
  if g.broken then
    if g.first = ['\n'] then (if g.later.isEmpty then [' '] else g.later) else g.first ++ g.later
  else g.blanks

/-- Reads blanks and line breaks. In a plain scalar a tab may not stand where indentation is
expected, that is before column `indent` of a new line. -/
def readGap (indent : Nat) : (fuel : Nat) → Gap → Cursor → Option (Gap × Cursor)
  | 0, g, c => some (g, c)
  | fuel + 1, g, c =>
    match c.rest with
    | [] => some (g, c)
    | d :: _ =>
      if isSpace d then
        if g.broken && c.column < indent && d == '\t' then none
        else if g.broken then readGap indent fuel g (c.skip 1)
        else readGap indent fuel { g with blanks := g.blanks ++ [d] } (c.skip 1)
      else if isBreak d then
        let (b, c') := c.skipBreak
        if g.broken then readGap indent fuel { g with later := g.later ++ b } c'
        else readGap indent fuel { g with blanks := [], first := b, broken := true } c'
      else some (g, c)

def flowIndicators : List Char := [',', '[', ']', '\x7b', '\x7d']

/-- Whether a plain scalar ends before the next character. -/
def endsPlain (flow : Bool) (c : Cursor) : Bool :=
  (c.sees (· == ':') 0 && c.atBlank 1) ||
    (flow && c.sees flowIndicators.contains 0)

/-- In flow context a colon must not touch an indicator or a question mark. -/
def strayColon (flow : Bool) (c : Cursor) : Bool :=
  flow && c.sees (· == ':') 0 && c.sees (fun d => d == '?' || flowIndicators.contains d) 1

def readWord (flow : Bool) : (fuel : Nat) → List Char → Cursor → Option (List Char × Cursor)
  | 0, w, c => some (w.reverse, c)
  | fuel + 1, w, c =>
    if c.atBlank 0 then some (w.reverse, c)
    else if strayColon flow c then none
    else if endsPlain flow c then some (w.reverse, c)
    else match c.rest with
      | d :: _ => readWord flow fuel (d :: w) (c.skip 1)
      | [] => some (w.reverse, c)

/-- Words of a plain scalar; the flag tells whether the scalar ended behind a line break. -/
def readPlain (flow : Bool) (indent : Nat) :
    (fuel : Nat) → List Char → Gap → Cursor → Option (List Char × Bool × Cursor)
  | 0, text, g, c => some (text, g.broken, c)
  | fuel + 1, text, g, c =>
    if c.atDocumentMarker || c.sees (· == '#') 0 then some (text, g.broken, c)
    else do
      let (w, c) ← readWord flow (fuel + 1) [] c
      let (text, g) := if w.isEmpty then (text, g) else (text ++ g.fold ++ w, {})
      if !c.sees (fun d => isSpace d || isBreak d) 0 then return (text, g.broken, c)
      let (g, c) ← readGap indent (fuel + 1) g c
      if !flow && c.column < indent then return (text, g.broken, c)
      readPlain flow indent fuel text g c

def escapeChar? : Char → Option Char
  | '0' => some '\x00'
  | 'a' => some '\x07'
  | 'b' => some '\x08'
  | 't' => some '\t'
  | '\t' => some '\t'
  | 'n' => some '\n'
  | 'v' => some '\x0b'
  | 'f' => some '\x0c'
  | 'r' => some '\r'
  | 'e' => some '\x1b'
  | ' ' => some ' '
  | '"' => some '"'
  | '/' => some '/'
  | '\\' => some '\\'
  | 'N' => some '\u0085'
  | '_' => some '\u00a0'
  | 'L' => some '\u2028'
  | 'P' => some '\u2029'
  | _ => none

def escapeLength? : Char → Option Nat
  | 'x' => some 2
  | 'u' => some 4
  | 'U' => some 8
  | _ => none

def hexDigitValue? (c : Char) : Option Nat :=
  if c.isDigit then some (c.toNat - 48)
  else if 'a' ≤ c ∧ c ≤ 'f' then some (c.toNat - 87)
  else if 'A' ≤ c ∧ c ≤ 'F' then some (c.toNat - 55)
  else none

def hexValue? (cs : List Char) : Option Nat :=
  cs.foldlM (fun n c => (hexDigitValue? c).map (16 * n + ·)) 0

def scalarValue? (n : Nat) : Option Char :=
  if h : n.isValidChar then some (Char.ofNatAux n h) else none

/-- The character of an escape whose letter is `d`, and the cursor behind it. -/
def readEscape (d : Char) (c : Cursor) : Option (Char × Cursor) :=
  match escapeChar? d with
  | some e => some (e, c.skip 2)
  | none => do
    let n ← escapeLength? d
    let digits := (c.rest.drop 2).take n
    if digits.length < n then none
    else
      let e ← scalarValue? (← hexValue? digits)
      return (e, c.skip (2 + n))

/-- Characters of a quoted scalar up to a blank, a line break or the closing quote; the flag tells
whether an escaped line break ended them. -/
def readQuotedWord (single : Bool) : (fuel : Nat) → List Char → Cursor →
    Option (List Char × Bool × Cursor)
  | 0, w, c => some (w.reverse, false, c)
  | fuel + 1, w, c =>
    if c.atBlank 0 then some (w.reverse, false, c)
    else match single, c.rest with
      | true, '\'' :: '\'' :: _ => readQuotedWord single fuel ('\'' :: w) (c.skip 2)
      | true, '\'' :: _ => some (w.reverse, false, c)
      | false, '"' :: _ => some (w.reverse, false, c)
      | false, '\\' :: d :: _ =>
        if isBreak d then some (w.reverse, true, (c.skip 1).skipBreak.2)
        else do
          let (e, c) ← readEscape d c
          readQuotedWord single fuel (e :: w) c
      | false, ['\\'] => none
      | _, d :: _ => readQuotedWord single fuel (d :: w) (c.skip 1)
      | _, [] => some (w.reverse, false, c)

/-- The contents of a quoted scalar whose opening quote has been passed. -/
def readQuoted (single : Bool) : (fuel : Nat) → List Char → Cursor → Option (List Char × Cursor)
  | 0, _, _ => none
  | fuel + 1, text, c =>
    if c.atDocumentMarker || c.rest.isEmpty then none
    else do
      let (w, escaped, c) ← readQuotedWord single (fuel + 1) [] c
      let text := text ++ w
      if c.sees (· == if single then '\'' else '"') 0 then return (text, c.skip 1)
      let (g, c) ← readGap 0 (fuel + 1) { broken := escaped } c
      readQuoted single fuel (text ++ g.fold) c

/-- Blank lines before a line of a block scalar. Without a known indentation the deepest of the
blank lines and the line itself decides it. -/
def readBlockBreaks (indent : Option Nat) : (fuel : Nat) → (deepest : Nat) → List Char → Cursor →
    Option (Nat × List Char × Cursor)
  | 0, deepest, breaks, c => some (deepest, breaks, c)
  | fuel + 1, deepest, breaks, c =>
    let spaces := (c.rest.takeWhile (· == ' ')).length
    let c := c.skip (match indent with
      | some n => min spaces (n - c.column)
      | none => spaces)
    let deepest := max deepest c.column
    if (indent.all (c.column < ·)) && c.sees (· == '\t') 0 then none
    else if c.sees isBreak 0 then
      let (b, c) := c.skipBreak
      readBlockBreaks indent fuel deepest (breaks ++ b) c
    else some (deepest, breaks, c)

inductive Chomping where
  | strip
  | clip
  | keep
  deriving DecidableEq, Repr

/-- Lines of a block scalar from a cursor at its indentation. -/
def readBlockLines (literal : Bool) (indent : Nat) (chomping : Chomping) :
    (fuel : Nat) → (text lineBreak breaks : List Char) → (leadingBlank : Bool) → Cursor →
    Option (List Char × Cursor)
  | 0, text, _, _, _, c => some (text, c)
  | fuel + 1, text, lineBreak, breaks, leadingBlank, c =>
    if c.column ≠ indent || c.rest.isEmpty then
      let text := if chomping = .strip then text else text ++ lineBreak
      some (if chomping = .keep then text ++ breaks else text, c)
    else do
      let blank := c.sees isSpace 0
      let joined :=
        if !literal && lineBreak == ['\n'] && !leadingBlank && !blank then
          (if breaks.isEmpty then [' '] else [])
        else lineBreak
      let line := c.rest.takeWhile fun d => !isBreak d
      let (lineBreak, c) := (c.skip line.length).skipBreak
      let (_, breaks', c) ← readBlockBreaks (some indent) (fuel + 1) 0 [] c
      readBlockLines literal indent chomping fuel (text ++ joined ++ breaks ++ line) lineBreak
        breaks' blank c

def chompingOf? : Char → Option Chomping
  | '+' => some .keep
  | '-' => some .strip
  | _ => none

/-- Chomping and indentation indicators in either order. -/
def readBlockHeader (c : Cursor) : Option (Chomping × Option Nat × Cursor) :=
  let digit (c : Cursor) : Option (Option Nat × Cursor) := match c.peek? 0 with
    | some d =>
      if d == '0' then none
      else if d.isDigit then some (some (d.toNat - 48), c.skip 1)
      else some (none, c)
    | none => some (none, c)
  match (c.peek? 0).bind chompingOf? with
  | some chomping => do
    let (n, c) ← digit (c.skip 1)
    return (chomping, n, c)
  | none => do
    let (n, c) ← digit c
    match n, (c.peek? 0).bind chompingOf? with
    | some n, some chomping => return (chomping, some n, c.skip 1)
    | n, _ => return (.clip, n, c)

/-- A block scalar behind its indicator, under the indentation `parent` of what contains it. -/
def readBlock (literal : Bool) (parent : Option Nat) (c : Cursor) : Option (List Char × Cursor) := do
  let fuel := c.rest.length + 1
  let (chomping, increment, c) ← readBlockHeader c
  let c := c.skipWhile isSpace
  let c := if c.sees (· == '#') 0 then c.skipWhile fun d => !isBreak d else c
  if !c.rest.isEmpty && !c.sees isBreak 0 then none
  else
    let (_, c) := c.skipBreak
    let known := increment.map fun n => (parent.getD 0) + n
    let (deepest, breaks, c) ← readBlockBreaks known fuel 0 [] c
    let indent := known.getD (max deepest (max ((parent.map (· + 1)).getD 0) 1))
    readBlockLines literal indent chomping fuel [] [] breaks false c

end QueryCluster.Yaml
