import QueryCluster.Codec.Value
import QueryCluster.Plan.Basic

/-!
# Expressions, aggregates and sort items in bytes
-/
namespace QueryCluster

open Codec

namespace Comparison

def all : List Comparison := [eq, ne, lt, le, gt, ge]

def code : Comparison → Nat
  | eq => 0
  | ne => 1
  | lt => 2
  | le => 3
  | gt => 4
  | ge => 5

theorem all_code (c : Comparison) : all[c.code]? = some c := by cases c <;> rfl

def encode (c : Comparison) : Bytes := encodeTag c.code

def decode : Decoder Comparison := do
  let n ← decodeTag
  all[n]?

end Comparison

namespace Expr

def encode : Expr → Bytes
  | column name => encodeTag 0 ++ encodeText name
  | literal v => encodeTag 1 ++ v.encode
  | compare l op r => encodeTag 2 ++ l.encode ++ op.encode ++ r.encode
  | and l r => encodeTag 3 ++ l.encode ++ r.encode
  | or l r => encodeTag 4 ++ l.encode ++ r.encode
  | not e => encodeTag 5 ++ e.encode
  | isNull e => encodeTag 6 ++ e.encode

/-- Decodes an expression that is at most `depth` levels deep. -/
def decodeWithin : (depth : Nat) → Decoder Expr
  | 0 => failure
  | depth + 1 => do
    match ← decodeTag with
    | 0 => return column (← decodeText)
    | 1 => return literal (← Value.decode)
    | 2 => return compare (← decodeWithin depth) (← Comparison.decode) (← decodeWithin depth)
    | 3 => return and (← decodeWithin depth) (← decodeWithin depth)
    | 4 => return or (← decodeWithin depth) (← decodeWithin depth)
    | 5 => return not (← decodeWithin depth)
    | 6 => return isNull (← decodeWithin depth)
    | _ => failure

/-- Every level takes bytes of its own, so the number of bytes bounds the depth. -/
def decode : Decoder Expr := fun bs => decodeWithin bs.length bs

end Expr

namespace SortItem

def encode (i : SortItem) : Bytes := i.expr.encode ++ i.direction.encode

def decode : Decoder SortItem := do
  let expr ← Expr.decode
  return { expr, direction := ← Direction.decode }

end SortItem

namespace NamedExpr

def encode (e : NamedExpr) : Bytes := e.expr.encode ++ encodeText e.name

def decode : Decoder NamedExpr := do
  let expr ← Expr.decode
  return { expr, name := ← decodeText }

end NamedExpr

namespace AggregateFunction

def code : AggregateFunction → Nat
  | count => 0
  | sum => 1
  | min => 2
  | max => 3
  | avg => 4

theorem all_code (f : AggregateFunction) : all[f.code]? = some f := by cases f <;> rfl

def encode (f : AggregateFunction) : Bytes := encodeTag f.code

def decode : Decoder AggregateFunction := do
  let n ← decodeTag
  all[n]?

end AggregateFunction

namespace Aggregate

def encode (a : Aggregate) : Bytes :=
  a.func.encode ++ encodeOption encodeText a.column ++ encodeText a.label

def decode : Decoder Aggregate := do
  let func ← AggregateFunction.decode
  let column ← decodeOption decodeText
  return { func, column, label := ← decodeText }

end Aggregate
end QueryCluster
