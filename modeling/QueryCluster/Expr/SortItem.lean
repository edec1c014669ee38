import QueryCluster.Expr.Parser
import QueryCluster.Expr.Printer

/-!
# Sort items

An expression with a direction. In text the direction stands last, after a space and in any letter
case, and ascending may be left out.
-/
namespace QueryCluster

structure SortItem where
  expr : Expr
  direction : Direction
  deriving DecidableEq, Repr, Inhabited

namespace SortItem

/-- The characters before an ending that is compared in lower case. -/
def beforeEnding? (ending : String) (cs : List Char) : Option (List Char) :=
  let front := cs.length - ending.length
  if (cs.drop front).map Char.toLower = ending.toList then some (cs.take front) else none

def splitDirection (cs : List Char) : List Char × Direction :=
  match beforeEnding? " desc" cs with
  | some body => (body, .descending)
  | none => match beforeEnding? " asc" cs with
    | some body => (body, .ascending)
    | none => (cs, .ascending)

def read (text : String) : Except ExprFault SortItem :=
  let (body, direction) := splitDirection (Text.trimChars text.toList)
  (Expr.read (String.ofList body)).map fun expr => ⟨expr, direction⟩

def directionWord : Direction → String
  | .ascending => "asc"
  | .descending => "desc"

def display (i : SortItem) : String := i.expr.display ++ " " ++ directionWord i.direction

end SortItem
end QueryCluster
