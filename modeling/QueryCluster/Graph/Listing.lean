import QueryCluster.Graph.Basic
import QueryCluster.Text.Quoted

/-!
# Listing a graph

One line for each node: its operator, its executor, whom it reads from and writes to, how it spreads
its rows and what it does.
-/
namespace QueryCluster

def bracketedNames (separator : String) (names : List String) : String :=
  "[" ++ separator.intercalate names ++ "]"

def quotedNames (names : List String) : String := bracketedNames ", " (names.map Text.quoted)

def Partitioning.literal : Partitioning → String
  | single => "Single"
  | oneToOne => "OneToOne"
  | roundRobin => "RoundRobin"
  | hash keys => "Hash(" ++ quotedNames keys ++ ")"

def Operator.detail : Operator → String
  | scan part => "table=" ++ part.table ++ " partitions=" ++
      bracketedNames ", " (part.partitions.map toString)
  | filter predicate => "predicate=" ++ predicate.display
  | project exprs => "columns=" ++ bracketedNames "," (exprs.map (·.name))
  | group keys aggregates _ =>
    "keys=" ++ quotedNames keys ++ " aggs=" ++ toString aggregates.length
  | localSort items => "items=" ++ bracketedNames ", " (items.map (·.display))
  | merge items => "items=" ++ bracketedNames ", " (items.map (·.display))
  | limit count => "count=" ++ toString count
  | union => ""

/-- Fills up a text with blanks on the right. -/
def padded (width : Nat) (s : String) : String :=
  s ++ String.ofList (List.replicate (width - s.length) ' ')

def OperatorNode.line (n : OperatorNode) : String :=
  let names (ls : List Location) := bracketedNames "," (ls.map (·.name))
  padded 14 n.operator.type.name ++ " @" ++ padded 12 n.location.name ++ " in=" ++ names n.inputs ++
    " out=" ++ names n.outputs ++ " " ++ n.partitioning.literal ++ " " ++ n.operator.detail ++ "\n"

def listing (nodes : List OperatorNode) : String := String.join (nodes.map OperatorNode.line)

end QueryCluster
