import QueryCluster.Proofs.Scheduler.Fitting
import QueryCluster.Proofs.Scheduler.Usage
import QueryCluster.Scheduler.Recorder

/-!
# What an attempt to start a task does

In any state that can be reached an attempt finds the queue empty, or its first task short of executors,
and changes nothing. Or the task gets the first of the free executors, as many as its plan needs at the
largest parallelism that they are enough for, and it has them before any of them is called.
-/
namespace QueryCluster

namespace World

variable {κ : Type} (c : Client (World κ)) {config : Config} {order : Phase → List Nat} {w : World κ}

/-- What is left to do of an attempt once a task has its executors. -/
def carryOut (config : Config) (order : Phase → List Nat) (start : Start) (w : World κ) :
    Except SchedulerError RunOutcome × World κ :=
  match c.dispatch config.dispatchMode order start.nodes w with
  | (.ok _, w) =>
    (.ok (.dispatched start.task start.parallelism start.nodes.length),
      w.onScheduler (w.scheduler.markDispatched start.task))
  | (.error f, w) =>
    let w := if config.abortOnDispatchFailure then abortAll c start.task f.contacted w else w
    let fault := TaskFault.dispatch f.phase f.location.name f.error
    (.error (.dispatch start.task f.phase f.location.name f.error),
      w.onScheduler (w.scheduler.failDispatch start.task fault config.abortOnDispatchFailure))

theorem runTask_started {start : Start} {s : SchedulerState}
    (h : w.scheduler.startTask config w.free = (.ok (.inr start), s)) :
    runTask c config order w = carryOut c config order start (w.onScheduler s) := by
  rw [runTask, h]
  rfl

theorem runTask_unstarted {outcome : RunOutcome}
    (h : w.scheduler.startTask config w.free = (.ok (.inl outcome), w.scheduler)) :
    runTask c config order w = (.ok outcome, w) := by
  rw [runTask, h]
  rfl

/-- A task that has its executors is dispatched, or its dispatch fails. -/
theorem carryOut_cases (start : Start) (w : World κ) :
    (carryOut c config order start w).1 =
        .ok (.dispatched start.task start.parallelism start.nodes.length) ∨
      ∃ e, (carryOut c config order start w).1 = .error e := by
  rw [carryOut]
  rcases c.dispatch config.dispatchMode order start.nodes w with ⟨f | _, w'⟩
  · exact .inr ⟨_, rfl⟩
  · exact .inl rfl

end World

namespace SchedulerState

variable {s s' : SchedulerState} {config : Config} {free : List Location} {task : Task}
  {todos : TaskList} {plan : Plan}

/-- The first task of the queue has got the first of the free executors, so many of them, one for each
of its instructions, and the root is on the very first. Nothing else has changed. -/
structure Granted (s : SchedulerState) (free : List Location) (task : Task) (plan : Plan) (p n : Nat)
    (start : Start) (s' : SchedulerState) : Prop where
  id : start.task = task.id
  parallelism : start.parallelism = p
  instructions : ∃ g, (plan.bind (.ofNat p) free).1 = .ok g ∧ start.nodes = assignments task g
  length : start.nodes.length = n
  places : (start.nodes.map (·.location)).Perm (free.take n)
  allocated : ∀ name, s'.allocated.lookup name =
    if name ∈ (free.take n).map (·.name) then some task.id else s.allocated.lookup name
  todos : s.todos = task :: s'.todos
  doings : ∃ root ∈ start.nodes.map (·.location), free.head? = some root ∧
    s'.doings = s.doings ++ [{ task with
      status := .doing, parallelism := p, executorNumber := n,
      executors := start.nodes.map (·.location), root := some root }]
  dones : s'.dones = s.dones
  fails : s'.fails = s.fails
  results : s'.results = s.results
  nextId : s'.nextId = s.nextId

theorem Seated.granted {p : Nat} {g : Graph} (h : Seated config plan free p g)
    (htodos : s.todos = task :: todos) : s.Granted free task plan p (plan.demand (.ofNat p))
      ⟨task.id, p, assignments task g⟩ (s.started task todos p g) where
  id := rfl
  parallelism := rfl
  instructions := ⟨g, h.bound, rfl⟩
  length := by rw [assignments, List.length_map, h.length]
  places := by
    rw [places_assignments]
    exact h.places
  allocated name := by
    have hnames := (h.places.map (·.name)).mem_iff (a := name)
    simp only [started, lookup_allocate, hnames]
  todos := htodos
  doings := by
    refine ⟨g.root.location, ?_, h.head, ?_⟩
    · rw [places_assignments]
      exact Plan.mem_placesOf.mpr ⟨g.root, h.root, rfl⟩
    · rw [places_assignments, ← h.length]
      rfl
  dones := rfl
  fails := rfl
  results := rfl
  nextId := rfl

/-- Whose counts fit a word, a task that was counted without parallelism waits or starts by the count at
the smallest parallelism that is allowed. -/
theorem startTask_of_counted (hvalid : config.validate = .ok ()) (hword : config.maxParallelism < 2 ^ 64)
    (hfree : free.length < 2 ^ 64) (htodos : s.todos = task :: todos) (hplan : task.plan = some plan)
    {one : UInt64} (hone : plan.executorCount 1 = .ok one) (hnumber : task.executorNumber = one.toNat)
    (hcounts : plan.demand (.ofNat config.maxParallelism) < 2 ^ 64) :
    (free.length < plan.demand (.ofNat config.minParallelism) ∧ s.startTask config free =
        (.ok (.inl (.waiting task.id task.executorNumber free.length)), s)) ∨
      plan.demand (.ofNat config.minParallelism) ≤ free.length ∧ ∃ p start s',
        IsGreatest (plan.affordable free.length config.minParallelism config.maxParallelism) p ∧
        s.Granted free task plan p (plan.demand (.ofNat p)) start s' ∧
        s.startTask config free = (.ok (.inr start), s') := by
  obtain ⟨hmin, hrange, _⟩ := Config.validate_ok.mp hvalid
  have hprobes := (Plan.probes_demand_lt_iff
    ((Config.max_minParallelism hvalid).symm ▸ hrange) hword).mpr hcounts (.ofNat free.length)
  -- no fewer executors are needed at the lower bound than without parallelism
  have hleast : task.executorNumber ≤ plan.demand (.ofNat config.minParallelism) := by
    have hmono : plan.demand 1 ≤ plan.demand (.ofNat config.minParallelism) :=
      plan.demand_mono (Plan.ofNat_mono hmin (by omega))
    have hmost := plan.demand_mono (Plan.ofNat_mono hrange hword)
    have hone64 : plan.demand 1 < 2 ^ 64 := by omega
    rw [Plan.executorCount_eq (by decide) hone64] at hone
    rwa [hnumber, ← Except.ok.inj hone, UInt64.toNat_ofNat_of_lt' hone64]
  rcases startTask_cases hvalid hword hfree htodos hplan hprobes with
    ⟨hfew, hwait⟩ | ⟨_, p, g, hseated, hstart⟩
  · exact .inl ⟨by omega, hwait⟩
  · have hgreatest := hseated.greatest.1
    refine .inr ⟨?_, p, _, _, hseated.greatest, hseated.granted htodos, hstart⟩
    have hmono := plan.demand_mono (Plan.ofNat_mono
      (Nat.le_trans (Nat.le_max_left _ _) hgreatest.1) (Nat.lt_of_le_of_lt hgreatest.2.1 hword))
    exact Nat.le_trans hmono hgreatest.2.2

end SchedulerState

section Attempts

variable {κ : Type} (c : Client (World κ)) (order : Phase → List Nat) (outside : κ) {config : Config}
  {topology : Topology} {x : Usage} {task : Task} {todos : TaskList}

/-- The first task of the queue waits or it gets its executors. -/
theorem runTask_head (hvalid : config.validate = .ok ()) (hword : config.maxParallelism < 2 ^ 64)
    (hx : Usage.Steps config (.start topology) x) (hfree : (x.world outside).free.length < 2 ^ 64)
    (htodos : x.scheduler.todos = task :: todos)
    (hcounts : ∀ plan, task.plan = some plan → plan.demand (.ofNat config.maxParallelism) < 2 ^ 64) :
    ∃ plan needed, task.plan = some plan ∧
      plan.executorCount (.ofNat config.minParallelism) = .ok needed ∧
      ((x.world outside).free.length < needed.toNat ∧ World.runTask c config order (x.world outside) =
          (.ok (.waiting task.id task.executorNumber (x.world outside).free.length), x.world outside) ∨
        needed.toNat ≤ (x.world outside).free.length ∧ ∃ p n start s',
          IsGreatest (plan.feasible (.ofNat (x.world outside).free.length)
            config.minParallelism config.maxParallelism) p ∧
          plan.executorCount (.ofNat p) = .ok n ∧
          x.scheduler.Granted (x.world outside).free task plan p n.toNat start s' ∧
          World.runTask c config order (x.world outside) =
            World.carryOut c config order start ((x.world outside).onScheduler s')) := by
  obtain ⟨hmin, hrange, _⟩ := Config.validate_ok.mp hvalid
  obtain ⟨plan, one, hplan, hone, hnumber⟩ :=
    hx.sound.counted task (htodos ▸ List.mem_cons_self)
  have hmost := hcounts plan hplan
  have hcount : ∀ p, 1 ≤ p → p ≤ config.maxParallelism →
      plan.executorCount (.ofNat p) = .ok (.ofNat (plan.demand (.ofNat p))) ∧
        (UInt64.ofNat (plan.demand (.ofNat p))).toNat = plan.demand (.ofNat p) := by
    intro p hp hle
    have hdemand := Nat.lt_of_le_of_lt (plan.demand_mono (Plan.ofNat_mono hle hword)) hmost
    exact ⟨Plan.executorCount_eq (Plan.ofNat_ne_zero hp (by omega)) hdemand,
      UInt64.toNat_ofNat_of_lt' hdemand⟩
  obtain ⟨hneeded, htoNat⟩ := hcount _ hmin hrange
  refine ⟨plan, _, hplan, hneeded, ?_⟩
  rw [htoNat]
  rcases SchedulerState.startTask_of_counted hvalid hword hfree htodos hplan hone hnumber hmost with
    ⟨hfew, hwait⟩ | ⟨henough, p, start, s', hgreatest, hgranted, hstart⟩
  · exact .inl ⟨hfew, World.runTask_unstarted c hwait⟩
  · obtain ⟨hp, hle, _⟩ := hgreatest.1
    obtain ⟨hn, hnNat⟩ := hcount p (by omega) hle
    refine .inr ⟨henough, p, _, start, s', ?_, hn, hnNat.symm ▸ hgranted, World.runTask_started c hstart⟩
    rwa [Plan.feasible_eq_affordable hword hmost, UInt64.toNat_ofNat_of_lt' hfree]

/-- In any state that can be reached, an attempt is idle just if the queue is empty, and the first task of
the queue waits just if it needs more executors at the smallest parallelism than are free; neither changes
anything. Otherwise the task gets the first of the free executors before any of them is called, as many as
it needs at the largest parallelism that they are enough for. -/
theorem runTask_grants (hvalid : config.validate = .ok ()) (hword : config.maxParallelism < 2 ^ 64)
    (hx : Usage.Steps config (.start topology) x) (hexecutors : x.topology.length < 2 ^ 64)
    (hcounts : ∀ task ∈ x.scheduler.todos.head?, ∀ plan, task.plan = some plan →
      plan.demand (.ofNat config.maxParallelism) < 2 ^ 64) :
    ((World.runTask c config order (x.world outside)).1 = .ok .idle ↔ x.scheduler.todos = []) ∧
    (x.scheduler.todos = [] →
      World.runTask c config order (x.world outside) = (.ok .idle, x.world outside)) ∧
    ∀ task todos, x.scheduler.todos = task :: todos → ∃ plan needed, task.plan = some plan ∧
      plan.executorCount (.ofNat config.minParallelism) = .ok needed ∧
      ((∃ id required free, (World.runTask c config order (x.world outside)).1 =
          .ok (.waiting id required free)) ↔ (x.world outside).free.length < needed.toNat) ∧
      ((x.world outside).free.length < needed.toNat →
        World.runTask c config order (x.world outside) =
          (.ok (.waiting task.id task.executorNumber (x.world outside).free.length), x.world outside)) ∧
      (needed.toNat ≤ (x.world outside).free.length → ∃ p n start s',
        IsGreatest (plan.feasible (.ofNat (x.world outside).free.length)
          config.minParallelism config.maxParallelism) p ∧
        plan.executorCount (.ofNat p) = .ok n ∧
        x.scheduler.Granted (x.world outside).free task plan p n.toNat start s' ∧
        World.runTask c config order (x.world outside) =
          World.carryOut c config order start ((x.world outside).onScheduler s')) := by
  have hfree : (x.world outside).free.length < 2 ^ 64 :=
    Nat.lt_of_le_of_lt (x.scheduler.length_free_le x.topology) hexecutors
  have hempty : x.scheduler.todos = [] →
      World.runTask c config order (x.world outside) = (.ok .idle, x.world outside) := fun h =>
    World.runTask_unstarted c (SchedulerState.startTask_idle h)
  have hhead := fun task todos (htodos : x.scheduler.todos = task :: todos) =>
    runTask_head c order outside hvalid hword hx hfree htodos fun plan =>
      hcounts task (htodos ▸ rfl) plan
  refine ⟨⟨fun hidle => ?_, fun h => by rw [hempty h]⟩, hempty, fun task todos htodos => ?_⟩
  · rcases htodos : x.scheduler.todos with _ | ⟨task, todos⟩
    · rfl
    obtain ⟨_, _, _, _, ⟨_, hwait⟩ | ⟨_, _, _, start, s', _, _, _, hrun⟩⟩ := hhead task todos htodos
    · rw [hwait] at hidle
      cases hidle
    · rw [hrun] at hidle
      rcases World.carryOut_cases c start ((x.world outside).onScheduler s') with h | ⟨_, h⟩ <;>
        cases h.symm.trans hidle
  · obtain ⟨plan, needed, hplan, hneeded, ⟨hfew, hwait⟩ | ⟨henough, hstart⟩⟩ := hhead task todos htodos
    · refine ⟨plan, needed, hplan, hneeded, ?_, fun _ => hwait, fun h => by omega⟩
      rw [hwait]
      exact ⟨fun _ => hfew, fun _ => ⟨_, _, _, rfl⟩⟩
    · refine ⟨plan, needed, hplan, hneeded, ⟨?_, fun h => by omega⟩, fun h => by omega, fun _ => hstart⟩
      rintro ⟨_, _, _, hwait⟩
      obtain ⟨_, _, start, s', _, _, _, hrun⟩ := hstart
      rw [hrun] at hwait
      rcases World.carryOut_cases c start ((x.world outside).onScheduler s') with h | ⟨_, h⟩ <;>
        cases h.symm.trans hwait

section Trio

/-! A limit over two scans, with four executors that are free and a parallelism of two at most. -/

def trioUsage : Usage := (Usage.start (.ofLocations Plan.trioHosts)).admitted Plan.trioPlan

def pairedConfig : Config := { maxParallelism := 2 }

def trioQueued : Task :=
  { id := 1, catalog := "c", schema := "s", plan := some Plan.trioPlan, executorNumber := 2 }

theorem runTask_grants_trio :
    Usage.Steps pairedConfig (.start (.ofLocations Plan.trioHosts)) trioUsage ∧
      trioUsage.scheduler.todos = [trioQueued] ∧ Plan.trioPlan.demand 2 = 3 ∧
      ∃ start s', (start.nodes.map (·.location)).Perm (Plan.trioHosts.take 3) ∧ s'.todos = [] ∧
        s'.allocated.lookup "c" = some 1 ∧ s'.allocated.lookup "d" = none ∧
        World.runTask Recorder.client pairedConfig (fun _ => []) (trioUsage.world {}) =
          World.carryOut Recorder.client pairedConfig (fun _ => []) start
            ((trioUsage.world {}).onScheduler s') := by
  have hsteps : Usage.Steps pairedConfig (.start (.ofLocations Plan.trioHosts)) trioUsage :=
    Usage.steps_admitted _ Plan.trioPlan (by decide)
  have htodos : trioUsage.scheduler.todos = [trioQueued] := by decide +kernel
  obtain ⟨_, _, hhead⟩ := runTask_grants Recorder.client (fun _ => []) ({} : Recorder) (by decide)
    (by decide) hsteps (by decide) fun t ht plan hp => by
      rw [htodos] at ht
      cases ht
      cases hp
      decide
  obtain ⟨plan, needed, hplan, hneeded, _, _, hgrants⟩ := hhead trioQueued [] htodos
  cases hplan
  have hfree : (trioUsage.world ({} : Recorder)).free = Plan.trioHosts := by decide +kernel
  obtain ⟨p, n, start, s', hgreatest, hn, hgranted, hrun⟩ := hgrants (by
    rw [← Except.ok.inj hneeded]
    decide +kernel)
  have htwo : p = 2 := Nat.le_antisymm hgreatest.1.2.1
    (hgreatest.2 ⟨by decide, by decide, 3, rfl, by decide +kernel⟩)
  subst htwo
  obtain rfl : 3 = n := Except.ok.inj hn
  rw [hfree] at hgranted
  refine ⟨hsteps, htodos, rfl, start, s', hgranted.places, ?_, ?_, ?_, hrun⟩
  · exact (List.cons.inj (htodos.symm.trans hgranted.todos)).2.symm
  · rw [hgranted.allocated]
    rfl
  · rw [hgranted.allocated]
    rfl

end Trio

end Attempts

end QueryCluster
