import QueryCluster.Operator.Group
import QueryCluster.Operator.Scan
import QueryCluster.Operator.Sort

/-!
# Running operators
-/
namespace QueryCluster

/-- What an operator finds on its executor besides its inputs. -/
structure Workplace where
  tables : TableStore
  batchRows : Nat
  sortLimit : Option Nat

namespace Operator

/-- The word for an operator in reports. -/
def word : Operator → String
  | scan _ => "scan"
  | filter _ => "filter"
  | project _ => "projection"
  | group .. => "group_by"
  | localSort _ => "order_by_local"
  | merge _ => "order_by_merge"
  | limit _ => "limit"
  | union => "union"

/-- Runs an operator over its inputs. All but a merge read them as one feed. -/
def run (w : Workplace) (arrival : List Nat) (inputs : List Feed) : Operator → Emission
  | scan part => runScan w.tables part inputs
  | filter predicate => Process.runOn (filterProcess predicate) (Feed.gather arrival inputs)
  | project exprs => Process.runOn (projectProcess exprs) (Feed.gather arrival inputs)
  | group keys aggregates emptyRow =>
    Process.runOn (groupProcess keys aggregates emptyRow w.batchRows) (Feed.gather arrival inputs)
  | localSort items =>
    Process.runOn (localSortProcess items w.sortLimit) (Feed.gather arrival inputs)
  | merge items => runMerge items w.batchRows inputs
  | limit count => Process.runOn (limitProcess count.toNat) (Feed.gather arrival inputs)
  | union => Process.runOn unionProcess (Feed.gather arrival inputs)

end Operator
end QueryCluster
