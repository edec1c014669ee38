/-!
# Reading positions in a YAML text

Characters that YAML allows, its line breaks, and a cursor that knows its line and column.
-/
namespace QueryCluster.Yaml

/-- The characters a YAML text may hold. -/
def isPrintable (c : Char) : Bool :=
  let n := c.toNat
  n == 9 || n == 10 || n == 13 || (0x20 ≤ n && n ≤ 0x7e) || n == 0x85 ||
    (0xa0 ≤ n && n ≤ 0xd7ff) || (0xe000 ≤ n && n ≤ 0xfffd) || 0x10000 ≤ n

def isBreak (c : Char) : Bool :=
  c == '\n' || c == '\r' || c == '\u0085' || c == '\u2028' || c == '\u2029'

def isSpace (c : Char) : Bool := c == ' ' || c == '\t'

/-- The characters of anchors and tag handles. -/
def isNameChar (c : Char) : Bool := c.isAlphanum || c == '_' || c == '-'

structure Cursor where
  rest : List Char
  index : Nat := 0
  line : Nat := 0
  column : Nat := 0
  deriving Repr

namespace Cursor

def peek? (c : Cursor) (n : Nat) : Option Char := c.rest[n]?

def sees (c : Cursor) (p : Char → Bool) (n : Nat) : Bool := (c.peek? n).any p

/-- A blank, a line break or the end of the text. -/
def atBlank (c : Cursor) (n : Nat) : Bool := (c.peek? n).all fun d => isSpace d || isBreak d

def skip (c : Cursor) (n : Nat) : Cursor :=
  { c with rest := c.rest.drop n, index := c.index + n, column := c.column + n }

def skipWhile (c : Cursor) (p : Char → Bool) : Cursor := c.skip (c.rest.takeWhile p).length

/-- Passes one line break and gives the character it stands for. -/
def skipBreak (c : Cursor) : List Char × Cursor :=
  let next (n : Nat) : Cursor :=
    { rest := c.rest.drop n, index := c.index + n, line := c.line + 1, column := 0 }
  match c.rest with
  | '\r' :: '\n' :: _ => (['\n'], next 2)
  | d :: _ =>
    if d == '\u2028' || d == '\u2029' then ([d], next 1)
    else if isBreak d then (['\n'], next 1)
    else ([], c)
  | [] => ([], c)

/-- A document marker at the start of a line. -/
def atMarker (c : Cursor) (marker : List Char) : Bool :=
  c.column == 0 && c.rest.take 3 == marker && c.atBlank 3

def atDocumentMarker (c : Cursor) : Bool := c.atMarker ['-', '-', '-'] || c.atMarker ['.', '.', '.']

end Cursor
end QueryCluster.Yaml
