import QueryCluster.Plan.Error

/-!
# How many executors a plan needs

A scan runs on one executor for each partition, at most `p` of them, and filters and projections on
as many as what they read. Grouping and sorting take `p` workers and one executor that gathers their
rows; a limit takes one. If the last stage still runs on several executors, one more gathers its
rows. Counts are 64-bit words and wrap.
-/
namespace QueryCluster

/-- Executors of a stage and all below it, and of the stage alone. -/
structure Extent where
  total : UInt64
  top : UInt64
  deriving DecidableEq, Repr

namespace Plan

def scanWidth (scan : TableScan) (p : UInt64) : UInt64 := min p (max scan.partitions 1)

def extentOf (scan : TableScan) (p : UInt64) : List Stage → Extent
  | [] => ⟨scanWidth scan p, scanWidth scan p⟩
  | .filter _ :: below | .project _ :: below =>
    let e := extentOf scan p below
    ⟨e.total + e.top, e.top⟩
  | .group .. :: below | .sort _ :: below => ⟨(extentOf scan p below).total + p + 1, 1⟩
  | .limit _ :: below => ⟨(extentOf scan p below).total + 1, 1⟩

def extent (plan : Plan) (p : UInt64) : Extent := extentOf plan.scan p plan.stages

def executorCount (plan : Plan) (p : UInt64) : Except PlanFault UInt64 :=
  if p = 0 then .error .noParallelism
  else
    let e := plan.extent p
    .ok (if 1 < e.top then e.total + 1 else e.total)

/-- Whether the plan runs on `free` executors at parallelism `p`. -/
def fits (plan : Plan) (free : UInt64) (p : Nat) : Bool :=
  match plan.executorCount (UInt64.ofNat p) with
  | .ok n => n ≤ free
  | .error _ => false

/-- The last of `lo ..= hi` that passes a test which `lo` passes, if none passes after a failure. -/
def lastPassing (test : Nat → Bool) (lo hi : Nat) : Nat :=
  if lo < hi then
    let mid := lo + (hi - lo + 1) / 2
    if test mid then lastPassing test mid hi else lastPassing test lo (mid - 1)
  else lo
termination_by hi - lo
decreasing_by all_goals omega

/-- The largest parallelism in `least ..= most` that `free` executors allow. -/
def maxParallelism (plan : Plan) (free : UInt64) (least most : Nat) : Option Nat :=
  let least := max least 1
  if most < least || !plan.fits free least then none
  else some (lastPassing (plan.fits free) least most)

end Plan
end QueryCluster
