import QueryCluster.Proofs.Graph.Probing
import QueryCluster.Proofs.Scheduler.Invariant

/-!
# Starting a task that fits

The first task of the queue is sized for the executors that are free and bound at the size that is
found. As long as no sum overflows where sizing asks, that is the largest size they are enough for, and
binding does not run out of them: the task waits or starts, and never fails.
-/
namespace QueryCluster

namespace Config

variable {config : Config}

theorem validate_ok : config.validate = .ok () ↔
    1 ≤ config.minParallelism ∧ config.minParallelism ≤ config.maxParallelism ∧
      1 ≤ config.splitBatchRows := by
  rw [validate]
  split
  · exact ⟨nofun, fun h => by omega⟩
  split
  · exact ⟨nofun, fun h => by omega⟩
  split
  · exact ⟨nofun, fun h => by omega⟩
  · exact ⟨fun _ => by omega, fun _ => rfl⟩

theorem max_minParallelism (h : config.validate = .ok ()) :
    max config.minParallelism 1 = config.minParallelism :=
  max_eq_left (validate_ok.mp h).1

end Config

namespace SchedulerState

/-- A task as it runs at a parallelism. -/
def startedTask (task : Task) (p : Nat) (g : Graph) : Task :=
  { task with
    status := .doing
    parallelism := p
    executorNumber := g.nodes.length
    executors := Plan.placesOf g.nodes
    root := some g.root.location }

/-- The state in which a task has started: it is the last of the running ones and holds its executors. -/
def started (s : SchedulerState) (task : Task) (todos : TaskList) (p : Nat) (g : Graph) :
    SchedulerState :=
  { s.allocate task.id (Plan.placesOf g.nodes) with
    todos, doings := s.doings.push (startedTask task p g) }

section Outcomes

variable {s : SchedulerState} {config : Config} {free : List Location} {task : Task} {todos : TaskList}
  {plan : Plan}

theorem startTask_idle (h : s.todos = []) : s.startTask config free = (.ok (.inl .idle), s) := by
  rw [startTask, h]

theorem startTask_few (htodos : s.todos = task :: todos) (hfew : free.length < task.executorNumber) :
    s.startTask config free =
      (.ok (.inl (.waiting task.id task.executorNumber free.length)), s) := by
  rw [startTask, htodos]
  exact if_pos hfew

variable (htodos : s.todos = task :: todos) (hplan : task.plan = some plan)
  (henough : task.executorNumber ≤ free.length)

include htodos hplan henough

theorem startTask_unsized
    (hsize : plan.maxParallelism (.ofNat free.length) config.minParallelism config.maxParallelism = none) :
    s.startTask config free =
      (.ok (.inl (.waiting task.id task.executorNumber free.length)), s) := by
  simp only [startTask, htodos, if_neg (Nat.not_lt.mpr henough), hplan, hsize]

theorem startTask_unbound {p : Nat} {e : PlanError}
    (hsize : plan.maxParallelism (.ofNat free.length) config.minParallelism config.maxParallelism = some p)
    (hbind : (plan.bind (.ofNat p) free).1 = .error e) :
    s.startTask config free = (.error (.plan e), { s with
      todos, fails := s.fails.push { task with status := .failed, error := some (.plan e) } }) := by
  simp only [startTask, htodos, if_neg (Nat.not_lt.mpr henough), hplan, hsize, hbind]

theorem startTask_bound {p : Nat} {g : Graph}
    (hsize : plan.maxParallelism (.ofNat free.length) config.minParallelism config.maxParallelism = some p)
    (hbind : (plan.bind (.ofNat p) free).1 = .ok g) :
    s.startTask config free =
      (.ok (.inr ⟨task.id, p, assignments task g⟩), s.started task todos p g) := by
  have hlength : (assignments task g).length = g.nodes.length := by rw [assignments, List.length_map]
  simp only [startTask, htodos, if_neg (Nat.not_lt.mpr henough), hplan, hsize, hbind, places_assignments,
    hlength, started, startedTask]
  rfl

end Outcomes

/-- A graph is bound for a plan at the largest parallelism that the free executors are enough for, on
the first of them. -/
structure Seated (config : Config) (plan : Plan) (free : List Location) (p : Nat) (g : Graph) : Prop where
  greatest : IsGreatest
    (plan.affordable free.length config.minParallelism config.maxParallelism) p
  bound : (plan.bind (.ofNat p) free).1 = .ok g
  length : g.nodes.length = plan.demand (.ofNat p)
  places : (Plan.placesOf g.nodes).Perm (free.take (plan.demand (.ofNat p)))
  root : g.root ∈ g.nodes
  head : free.head? = some g.root.location

/-- Where no sum overflows, the first task of the queue waits for want of executors, or it starts. -/
theorem startTask_cases {s : SchedulerState} {config : Config} {free : List Location} {task : Task}
    {todos : TaskList} {plan : Plan} (hvalid : config.validate = .ok ())
    (hword : config.maxParallelism < 2 ^ 64) (hfree : free.length < 2 ^ 64)
    (htodos : s.todos = task :: todos) (hplan : task.plan = some plan)
    (hprobes : ∀ p ∈ plan.probes (.ofNat free.length) config.minParallelism config.maxParallelism,
      plan.demand (.ofNat p) < 2 ^ 64) :
    ((free.length < task.executorNumber ∨
        free.length < plan.demand (.ofNat config.minParallelism)) ∧
      s.startTask config free =
        (.ok (.inl (.waiting task.id task.executorNumber free.length)), s)) ∨
      task.executorNumber ≤ free.length ∧ ∃ p g, Seated config plan free p g ∧
        s.startTask config free =
          (.ok (.inr ⟨task.id, p, assignments task g⟩), s.started task todos p g) := by
  obtain ⟨hmin, hrange, _⟩ := Config.validate_ok.mp hvalid
  have htoNat : (UInt64.ofNat free.length).toNat = free.length := UInt64.toNat_ofNat_of_lt' hfree
  by_cases hfew : free.length < task.executorNumber
  · exact .inl ⟨.inl hfew, startTask_few htodos hfew⟩
  have henough := Nat.le_of_not_lt hfew
  have hleast := Config.max_minParallelism hvalid
  rcases Plan.maxParallelism_exact (hleast.symm ▸ hrange) hword hprobes with
    ⟨hshort, hsize⟩ | ⟨p, hsize, hgreatest⟩
  · rw [htoNat, hleast] at hshort
    exact .inl ⟨.inr hshort, startTask_unsized htodos hplan henough hsize⟩
  · rw [htoNat] at hgreatest
    obtain ⟨hp, hmost, haffordable⟩ := hgreatest.1
    obtain ⟨g, hbind, hlength, hplaces, hroot, hhead⟩ := Plan.bind_seated
      (Plan.ofNat_ne_zero (by omega) (by omega)) (Nat.lt_of_le_of_lt haffordable hfree) haffordable
    exact .inr ⟨henough, p, g, ⟨hgreatest, hbind, hlength, hplaces, hroot, hhead⟩,
      startTask_bound htodos hplan henough hsize hbind⟩

section Wide

/-! Two sorts over a scan of one partition take two workers for each parallelism and three executors
more. With the widest range of parallelisms their count wraps. -/

end Wide

end SchedulerState
end QueryCluster
