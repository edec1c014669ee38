import QueryCluster.Expr.Basic
import QueryCluster.Text.Blank
import QueryCluster.Text.CharSet

/-!
# Tokens of an expression

Blanks separate tokens. A number begins with an ASCII digit, or with a minus sign before one, and
takes all ASCII letters, digits and dots that follow; a name takes letters, digits, underscores
and dots; a quoted text ends at the next quote of its kind.
-/
namespace QueryCluster

inductive Token where
  | word (s : String)
  | quoted (s : String)
  | number (s : String)
  | op (c : Comparison) (symbol : String)
  | openParen
  | closeParen
  deriving DecidableEq, Repr

namespace Token

def text : Token → String
  | word s => s
  | quoted s => "'" ++ s ++ "'"
  | number s => s
  | op _ symbol => symbol
  | openParen => "("
  | closeParen => ")"

/-- Keywords are words in any letter case. -/
def isKeyword (k : String) : Token → Bool
  | word s => Text.lowerAscii s == k
  | _ => false

def startsNumber (c : Char) (cs : List Char) : Bool :=
  c.isDigit || (c == '-' && (cs.head?.any Char.isDigit))

def inNumber (c : Char) : Bool := c.isAlphanum || c == '.'
def startsWord (c : Char) : Bool := Text.isWordChar c || c == '_'
def inWord (c : Char) : Bool := Text.isWordChar c || c == '_' || c == '.'

/-- The token that begins with the operator character `c`: two characters if they are one. -/
def operator (text : String) (c : Char) (cs : List Char) : Except ExprFault (Token × Nat) :=
  match Comparison.ofSymbol? (c :: cs.take 1) with
  | some o => .ok (op o (String.ofList (c :: cs.take 1)), (cs.take 1).length)
  | none => match Comparison.ofSymbol? [c] with
    | some o => .ok (op o (String.ofList [c]), 0)
    | none => .error (.badOperator c text)

/-- The token that begins with `c`, and how many of the characters after `c` belong to it. -/
def lexeme (text : String) (c : Char) (cs : List Char) : Except ExprFault (Token × Nat) :=
  if c = '(' then .ok (openParen, 0)
  else if c = ')' then .ok (closeParen, 0)
  else if c = '\'' ∨ c = '"' then
    let body := cs.takeWhile (· ≠ c)
    if body.length < cs.length then .ok (quoted (String.ofList body), body.length + 1)
    else .error (.unterminated text)
  else if c = '=' ∨ c = '!' ∨ c = '<' ∨ c = '>' then operator text c cs
  else if startsNumber c cs then
    let body := cs.takeWhile inNumber
    .ok (number (String.ofList (c :: body)), body.length)
  else if startsWord c then
    let body := cs.takeWhile inWord
    .ok (word (String.ofList (c :: body)), body.length)
  else .error (.badCharacter c text)

def scanFrom (text : String) : List Char → Except ExprFault (List Token)
  | [] => .ok []
  | c :: cs =>
    if Text.isBlank c then scanFrom text cs
    else match lexeme text c cs with
      | .error fault => .error fault
      | .ok (t, n) => (scanFrom text (cs.drop n)).map (t :: ·)
termination_by cs => cs.length
decreasing_by
  · simp
  · simp only [List.length_drop, List.length_cons]; omega

def scan (text : String) : Except ExprFault (List Token) := scanFrom text text.toList

end Token
end QueryCluster
