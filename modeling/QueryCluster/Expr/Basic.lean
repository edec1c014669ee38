import QueryCluster.Value.Order

/-!
# Row expressions

Columns, literals, comparisons and three-valued logic.
-/
namespace QueryCluster

inductive Comparison where
  | eq
  | ne
  | lt
  | le
  | gt
  | ge
  deriving DecidableEq, Repr, Inhabited

namespace Comparison

def symbol : Comparison → String
  | eq => "=="
  | ne => "!="
  | lt => "<"
  | le => "<="
  | gt => ">"
  | ge => ">="

def ofSymbol? : List Char → Option Comparison
  | ['=', '='] | ['='] => some eq
  | ['!', '='] | ['<', '>'] => some ne
  | ['<'] => some lt
  | ['<', '='] => some le
  | ['>'] => some gt
  | ['>', '='] => some ge
  | _ => none

theorem ofSymbol?_symbol (c : Comparison) : ofSymbol? c.symbol.toList = some c := by
  cases c <;> decide

def holds : Comparison → Ordering → Bool
  | eq, o => o == .eq
  | ne, o => o != .eq
  | lt, o => o == .lt
  | le, o => o != .gt
  | gt, o => o == .gt
  | ge, o => o != .lt

end Comparison

inductive Expr where
  | column (name : String)
  | literal (v : Value)
  | compare (left : Expr) (op : Comparison) (right : Expr)
  | and (left right : Expr)
  | or (left right : Expr)
  | not (inner : Expr)
  | isNull (inner : Expr)
  deriving DecidableEq, Repr, Inhabited

/-- Column names from left to right, as often as they occur. -/
def Expr.columns : Expr → List String
  | .column name => [name]
  | .literal _ => []
  | .compare l _ r => l.columns ++ r.columns
  | .and l r => l.columns ++ r.columns
  | .or l r => l.columns ++ r.columns
  | .not e => e.columns
  | .isNull e => e.columns

inductive ExprFault where
  | unterminated (text : String)
  | badOperator (symbol : Char) (text : String)
  | badCharacter (c : Char) (text : String)
  | trailing (token : String) (text : String)
  | unclosed
  | notNull
  | unexpected (token : String)
  | endOfText
  | badNumber (digits : String)
  | unknownColumn (name : String)
  | incomparable (left right : Value)
  | notBoolean (v : Value)
  deriving DecidableEq, Repr

def ExprFault.message : ExprFault → String
  | .unterminated text => "unterminated string in '" ++ text ++ "'"
  | .badOperator symbol text => "bad operator '" ++ symbol.toString ++ "' in '" ++ text ++ "'"
  | .badCharacter c text => "unexpected '" ++ c.toString ++ "' in '" ++ text ++ "'"
  | .trailing token text => "unexpected '" ++ token ++ "' in '" ++ text ++ "'"
  | .unclosed => "missing ')'"
  | .notNull => "expected 'null' after 'is'"
  | .unexpected token => "unexpected '" ++ token ++ "'"
  | .endOfText => "unexpected end of expression"
  | .badNumber digits => "bad number '" ++ digits ++ "'"
  | .unknownColumn name => "unknown column '" ++ name ++ "'"
  | .incomparable left right => "cannot compare " ++ left.literal ++ " with " ++ right.literal
  | .notBoolean v => "expected boolean, got " ++ v.literal

end QueryCluster
