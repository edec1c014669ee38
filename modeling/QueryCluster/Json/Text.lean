import QueryCluster.Content
import QueryCluster.Number.Integer

/-!
# Writing contents as JSON

Compact text: no blanks, entries in their order, and only quotes, backslashes and control characters
escaped.
-/
namespace QueryCluster.Json

def hexDigit (n : Nat) : Char := if n < 10 then Char.ofNat (48 + n) else Char.ofNat (87 + n)

def escapedChar (c : Char) : List Char :=
  if c = '"' then ['\\', '"']
  else if c = '\\' then ['\\', '\\']
  else if c = '\x08' then ['\\', 'b']
  else if c = '\x0c' then ['\\', 'f']
  else if c = '\n' then ['\\', 'n']
  else if c = '\r' then ['\\', 'r']
  else if c = '\t' then ['\\', 't']
  else if c.toNat < 32 then
    ['\\', 'u', '0', '0', hexDigit (c.toNat / 16), hexDigit (c.toNat % 16)]
  else [c]

def quotedChars (s : String) : List Char := '"' :: s.toList.flatMap escapedChar ++ ['"']

/-- Items with commas between them. -/
def joined : List (List Char) → List Char
  | [] => []
  | [a] => a
  | a :: rest => a ++ ',' :: joined rest

/-- A key that is no text has no name. -/
def keyChars : Content → List Char
  | .text s => quotedChars s
  | _ => quotedChars ""

mutual
def chars : Content → List Char
  | .null => "null".toList
  | .bool b => (if b then "true" else "false").toList
  | .unsigned n => (toString n.toNat).toList
  | .signed i => (toString i.toInt).toList
  | .real => "null".toList
  | .text s => quotedChars s
  | .list items => '[' :: joined (itemChars items) ++ [']']
  | .map entries => '\x7b' :: joined (entryChars entries) ++ ['\x7d']

def itemChars : List Content → List (List Char)
  | [] => []
  | c :: cs => chars c :: itemChars cs

def entryChars : List (Content × Content) → List (List Char)
  | [] => []
  | (k, v) :: rest => (keyChars k ++ ':' :: chars v) :: entryChars rest
end

def render (c : Content) : String := String.ofList (chars c)

end QueryCluster.Json
