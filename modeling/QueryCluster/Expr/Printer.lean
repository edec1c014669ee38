import QueryCluster.Expr.Basic

/-!
# Printing expressions

Conjunctions and disjunctions stand in parentheses; texts stand between single quotes as they are.
-/
namespace QueryCluster

namespace Expr

def displayLiteral : Value → String
  | .text s => "'" ++ s ++ "'"
  | v => v.display

def display : Expr → String
  | column name => name
  | literal v => displayLiteral v
  | compare l op r => l.display ++ " " ++ op.symbol ++ " " ++ r.display
  | and l r => "(" ++ l.display ++ " and " ++ r.display ++ ")"
  | or l r => "(" ++ l.display ++ " or " ++ r.display ++ ")"
  | not e => "not " ++ e.display
  | isNull e => e.display ++ " is null"

end Expr
end QueryCluster
