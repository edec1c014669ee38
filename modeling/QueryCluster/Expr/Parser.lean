import QueryCluster.Expr.Token
import QueryCluster.Number.Integer
import QueryCluster.Number.Float

/-!
# Reading expressions

```text
disjunction := conjunction ("or" conjunction)*
conjunction := factor ("and" factor)*
factor      := "not" factor | "(" disjunction ")" | operand [op operand | "is" ["not"] "null"]
operand     := column | quoted text | number | "true" | "false" | "null"
```

Each rule takes the tokens it needs and leaves the rest. The depth of the rules is bounded by
three for each token, which is where the fuel of `Expr.read` comes from.
-/
namespace QueryCluster

namespace Expr

abbrev Parsed := Except ExprFault (Expr × List Token)

/-- An integer if it fits 64 bits, else a double precision number. -/
def readNumber (s : String) : Except ExprFault Value :=
  match Number.readSigned Number.int64Limit s.toList with
  | .ok i => .ok (.int64 (Int64.ofInt i))
  | .error _ => match Double.read s.toList with
    | .ok x => .ok (.float64 x)
    | .error _ => .error (.badNumber s)

def ofWord (s : String) : Expr :=
  match Text.lowerAscii s with
  | "true" => literal (.bool true)
  | "false" => literal (.bool false)
  | "null" => literal .null
  | _ => column s

def operand : List Token → Parsed
  | .quoted s :: ts => .ok (literal (.text s), ts)
  | .number s :: ts => (readNumber s).map fun v => (literal v, ts)
  | .word s :: ts => .ok (ofWord s, ts)
  | t :: _ => .error (.unexpected t.text)
  | [] => .error .endOfText

def eat? (k : String) : List Token → Option (List Token)
  | t :: ts => if t.isKeyword k then some ts else none
  | [] => none

/-- What may follow the first operand of a factor. -/
def predicate (left : Expr) (ts : List Token) : Parsed :=
  match eat? "is" ts with
  | some ts =>
    let (negated, ts) := match eat? "not" ts with
      | some ts => (true, ts)
      | none => (false, ts)
    match eat? "null" ts with
    | some ts => .ok (if negated then not (isNull left) else isNull left, ts)
    | none => .error .notNull
  | none => match ts with
    | .op o _ :: ts => (operand ts).map fun (right, ts) => (compare left o right, ts)
    | ts => .ok (left, ts)

mutual

def disjunction : (fuel : Nat) → List Token → Parsed
  | 0, _ => .error .endOfText
  | fuel + 1, ts =>
    match conjunction fuel ts with
    | .ok (left, ts) => disjuncts fuel left ts
    | .error fault => .error fault

def disjuncts : (fuel : Nat) → Expr → List Token → Parsed
  | 0, left, ts => .ok (left, ts)
  | fuel + 1, left, ts =>
    match eat? "or" ts with
    | none => .ok (left, ts)
    | some ts => match conjunction fuel ts with
      | .ok (right, ts) => disjuncts fuel (or left right) ts
      | .error fault => .error fault

def conjunction : (fuel : Nat) → List Token → Parsed
  | 0, _ => .error .endOfText
  | fuel + 1, ts =>
    match factor fuel ts with
    | .ok (left, ts) => conjuncts fuel left ts
    | .error fault => .error fault

def conjuncts : (fuel : Nat) → Expr → List Token → Parsed
  | 0, left, ts => .ok (left, ts)
  | fuel + 1, left, ts =>
    match eat? "and" ts with
    | none => .ok (left, ts)
    | some ts => match factor fuel ts with
      | .ok (right, ts) => conjuncts fuel (and left right) ts
      | .error fault => .error fault

def factor : (fuel : Nat) → List Token → Parsed
  | 0, _ => .error .endOfText
  | fuel + 1, ts =>
    match eat? "not" ts with
    | some ts => (factor fuel ts).map fun (e, ts) => (not e, ts)
    | none => match ts with
      | .openParen :: ts =>
        match disjunction fuel ts with
        | .ok (e, .closeParen :: ts) => .ok (e, ts)
        | .ok _ => .error .unclosed
        | .error fault => .error fault
      | ts => match operand ts with
        | .ok (left, ts) => predicate left ts
        | .error fault => .error fault

end

def read (text : String) : Except ExprFault Expr :=
  match Token.scan text with
  | .error fault => .error fault
  | .ok tokens => match disjunction (4 * tokens.length + 4) tokens with
    | .error fault => .error fault
    | .ok (e, []) => .ok e
    | .ok (_, t :: _) => .error (.trailing t.text text)

end Expr
end QueryCluster
