import QueryCluster.Plan.Basic
import QueryCluster.Scheduler.Error

/-!
# Tasks and lists of tasks

Tasks are scheduled by priority, the highest first, then by the time of their admission, then by
their number. A list is kept in that order by insertion, or in order of arrival.
-/
namespace QueryCluster

structure Task where
  id : TaskId
  status : TaskStatus := .todo
  query : String := ""
  catalog : String := ""
  schema : String := ""
  /-- Higher runs first. -/
  priority : Int := 0
  /-- The time of admission. -/
  committed : Nat := 0
  plan : Option Plan := none
  /-- How many executors the task needs, without parallelism until it is dispatched. -/
  executorNumber : Nat := 0
  parallelism : Nat := 1
  /-- The executors that the task holds, in the order of its graph. -/
  executors : List Location := []
  root : Option Location := none
  error : Option TaskFault := none
  /-- Whether every phase of its dispatch went well. -/
  dispatched : Bool := false
  deriving DecidableEq, Repr

/-- The order in which tasks are scheduled. -/
def Task.schedule (a b : Task) : Ordering :=
  (compare b.priority a.priority).then
    ((compare a.committed b.committed).then (compare a.id.toNat b.id.toNat))

/-- Halves a range of `size` places from `base`, keeping the last place known to pass a test. -/
def narrow (test : Nat → Bool) (base size : Nat) : Nat :=
  if size ≤ 1 then base
  else narrow test (if test (base + size / 2) then base + size / 2 else base) (size - size / 2)
termination_by size
decreasing_by omega

/-- The number of items in front that pass a test, found by halving: exact when no item that passes
stands behind one that does not. -/
def partitionPoint {α : Type} (test : α → Bool) (as : List α) : Nat :=
  let passes (i : Nat) : Bool := as[i]?.any test
  let last := narrow passes 0 as.length
  if passes last then last + 1 else last

abbrev TaskList := List Task

namespace TaskList

def insert (l : TaskList) (t : Task) : TaskList :=
  l.insertIdx (partitionPoint (fun other => other.schedule t ≠ .gt) l) t

def push (l : TaskList) (t : Task) : TaskList := l ++ [t]

def get? (l : TaskList) (id : TaskId) : Option Task := l.find? (·.id = id)

/-- Changes the first task of this number. -/
def update (f : Task → Task) (id : TaskId) : TaskList → TaskList
  | [] => []
  | t :: ts => if t.id = id then f t :: ts else t :: update f id ts

/-- Takes out the first task of this number. -/
def take? (id : TaskId) : TaskList → Option (Task × TaskList)
  | [] => none
  | t :: ts =>
    if t.id = id then some (t, ts)
    else (take? id ts).map fun (found, others) => (found, t :: others)

end TaskList
end QueryCluster
