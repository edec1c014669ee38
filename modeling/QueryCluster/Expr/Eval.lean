import QueryCluster.Expr.Basic
import QueryCluster.Schema.Basic

/-!
# Evaluating expressions

A column that the schema knows but the row does not reach is absent, and absence spreads through
every operator. Null is a value: comparisons with null are null, and the logical operators are
three-valued.
-/
namespace QueryCluster

def Value.comparable (l r : Value) : Bool :=
  match l.dataType?, r.dataType? with
  | some a, some b => a == b || (a.isNumeric && b.isNumeric)
  | _, _ => true

namespace Expr

/-- A truth value, or `none` for null. -/
def truth : Value → Except ExprFault (Option Bool)
  | .bool b => .ok (some b)
  | .null => .ok none
  | v => .error (.notBoolean v)

def ofTruth : Option Bool → Value
  | some b => .bool b
  | none => .null

def both : Option Bool → Option Bool → Option Bool
  | some false, _ => some false
  | _, some false => some false
  | some true, some true => some true
  | _, _ => none

def either : Option Bool → Option Bool → Option Bool
  | some true, _ => some true
  | _, some true => some true
  | some false, some false => some false
  | _, _ => none

def compareValues (op : Comparison) (l r : Value) : Except ExprFault Value :=
  if l.isNull || r.isNull then .ok .null
  else if l.comparable r then .ok (.bool (op.holds (l.natural r)))
  else .error (.incomparable l r)

def connect (op : Option Bool → Option Bool → Option Bool) (l r : Value) : Except ExprFault Value := do
  let x ← truth l
  let y ← truth r
  return ofTruth (op x y)

def negate (v : Value) : Except ExprFault Value := do
  let x ← truth v
  return ofTruth (x.map Bool.not)

/-- Both operands are evaluated; if one is absent, so is the result. -/
def lift2 (f : Value → Value → Except ExprFault Value) (l r : Option Value) :
    Except ExprFault (Option Value) :=
  match l, r with
  | some x, some y => (f x y).map some
  | _, _ => .ok none

def eval (s : Schema) (row : List Value) : Expr → Except ExprFault (Option Value)
  | column name => match s.indexOf? name with
    | some i => .ok row[i]?
    | none => .error (.unknownColumn name)
  | literal v => .ok (some v)
  | compare l op r => do
    let x ← l.eval s row
    let y ← r.eval s row
    lift2 (compareValues op) x y
  | and l r => do
    let x ← l.eval s row
    let y ← r.eval s row
    lift2 (connect both) x y
  | or l r => do
    let x ← l.eval s row
    let y ← r.eval s row
    lift2 (connect either) x y
  | not e => do
    match ← e.eval s row with
    | some v => (negate v).map some
    | none => return none
  | isNull e => do
    let x ← e.eval s row
    return x.map fun v => .bool v.isNull

/-- Only a present truth keeps a row. -/
def keeps (s : Schema) (row : List Value) (e : Expr) : Except ExprFault Bool := do
  match ← e.eval s row with
  | some v => return (← truth v).getD false
  | none => return false

/-- The type of the values of an expression; the null literal counts as text. -/
def typeOf (s : Schema) : Expr → Except SchemaFault DataType
  | column name => s.typeOf name
  | literal v => .ok (v.dataType?.getD .utf8)
  | compare l _ r => do
    discard (l.typeOf s)
    discard (r.typeOf s)
    return .boolean
  | and l r => do
    discard (l.typeOf s)
    discard (r.typeOf s)
    return .boolean
  | or l r => do
    discard (l.typeOf s)
    discard (r.typeOf s)
    return .boolean
  | not e => do
    discard (e.typeOf s)
    return .boolean
  | isNull e => do
    discard (e.typeOf s)
    return .boolean

end Expr
end QueryCluster
