import QueryCluster.Proofs.Scheduler.Consistency

/-!
# A scheduler whose executors may be taken back from anyone

Sections of calls take turns as before, queries come with what their plan needs, and executors may be
taken back from any task, also from one that runs, whose number is then noted. Executors may go by any
names, even by the same one. A queued task keeps the plan and the count that it came with, and a running
task holds the executors it runs on, unless they were taken back from it.
-/
namespace QueryCluster

open SchedulerState (Filed)

/-- A plan with the executors it needs without parallelism. -/
def World.counted (plan : Plan) : Except PlanError (Plan × Nat) := do
  let needed ← (plan.executorCount 1).mapError .invalid
  return (plan, needed.toNat)

theorem World.compile_eq (query catalog schema : String) :
    compile query catalog schema = Pipeline.compile catalog schema query >>= counted := rfl

/-- A task that has a plan, and the number of executors that were counted for it. -/
def Task.Counted (t : Task) : Prop :=
  ∃ plan n, t.plan = some plan ∧ plan.executorCount 1 = .ok n ∧ t.executorNumber = n.toNat

theorem World.counted_ok {plan plan' : Plan} {needed : Nat} (h : counted plan = .ok (plan', needed)) :
    ∃ n, plan'.executorCount 1 = .ok n ∧ needed = n.toNat := by
  obtain ⟨n, hcount, h⟩ := bind_ok h
  cases h
  cases hn : plan.executorCount 1 with
  | error e =>
    rw [hn] at hcount
    cases hcount
  | ok m =>
    rw [hn] at hcount
    cases hcount
    exact ⟨n, rfl, rfl⟩

/-- The scheduler, and all who use it. -/
structure Usage where
  scheduler : SchedulerState := {}
  topology : Topology := []
  calls : List Underway := []
  /-- The tasks whose executors were taken back while they ran. -/
  reclaimed : List TaskId := []

namespace Usage

/-- Executors are taken back from a task. -/
def release (x : Usage) (id : TaskId) : Usage :=
  { x with
    scheduler := (x.scheduler.release id).2
    reclaimed := if id ∈ x.scheduler.doings.map (·.id) then id :: x.reclaimed else x.reclaimed }

/-- Some call goes through its next section, executors are taken back, or the topology changes. -/
inductive Step (config : Config) : Usage → Usage → Prop
  | locked {s s' : SchedulerState} {t : Topology} {before after : Option Underway}
      (front back : List Underway) (reclaimed : List TaskId) (h : Locked config t before s after s')
      (hadmits : before.bind Underway.admits = none) :
      Step config ⟨s, t, front ++ before.toList ++ back, reclaimed⟩
        ⟨s', t, front ++ after.toList ++ back, reclaimed⟩
  | enter {s : SchedulerState} {t : Topology} (front back : List Underway) (reclaimed : List TaskId)
      (task : Task) (compiled : Except PlanError Plan) :
      Step config ⟨s, t, front ++ [.admission task] ++ back, reclaimed⟩
        ⟨(s.enqueue task (compiled >>= World.counted)).2, t, front ++ back, reclaimed⟩
  | release (x : Usage) (id : TaskId) : Step config x (x.release id)
  | topology (x : Usage) (t : Topology) : Step config x { x with topology := t }

abbrev Steps (config : Config) : Usage → Usage → Prop := Relation.ReflTransGen (Step config)

/-- Nothing has been asked of the scheduler yet. -/
def start (topology : Topology) : Usage := { topology }

/-- A world in which the scheduler and its executors stand like this. -/
def world {κ : Type} (x : Usage) (outside : κ) : World κ := ⟨x.scheduler, x.topology, outside⟩

/-- The tasks that calls under way will file. -/
def waiting (x : Usage) : List TaskId := x.calls.filterMap Underway.admits

end Usage

/-! ## The functions of the scheduler as runs -/

namespace World

variable {κ : Type} {config : Config} {w w' w'' : World κ} {before between after : Option Underway}

/-- Steps bring a call from one stage to another, and a world to another, whoever else is at work. -/
def Uses (config : Config) (before after : Option Underway) (w w' : World κ) : Prop :=
  ∀ front back reclaimed, ∃ others reclaimed',
    Usage.Steps config ⟨w.scheduler, w.topology, front ++ before.toList ++ back, reclaimed⟩
      ⟨w'.scheduler, w'.topology, front ++ others ++ after.toList ++ back, reclaimed'⟩

theorem Uses.trans (h : Uses config before between w w') (h' : Uses config between after w' w'') :
    Uses config before after w w'' := by
  intro front back reclaimed
  obtain ⟨others, reclaimed', hsteps⟩ := h front back reclaimed
  obtain ⟨others', reclaimed'', hsteps'⟩ := h' (front ++ others) back reclaimed'
  refine ⟨others ++ others', reclaimed'', ?_⟩
  rw [← List.append_assoc front]
  exact hsteps.trans hsteps'

theorem Uses.waiting (h : Uses config none none w w') (call : Option Underway) :
    Uses config call call w w' := by
  intro front back reclaimed
  obtain ⟨others, reclaimed', hsteps⟩ := h front (call.toList ++ back) reclaimed
  refine ⟨others, reclaimed', ?_⟩
  simpa only [Option.toList_none, List.append_nil, List.append_assoc] using hsteps

theorem Uses.step {s : SchedulerState} (h : ∀ front back reclaimed, ∃ reclaimed', Usage.Step config
      ⟨w.scheduler, w.topology, front ++ before.toList ++ back, reclaimed⟩
      ⟨s, w.topology, front ++ after.toList ++ back, reclaimed'⟩) :
    Uses config before after w (w.onScheduler s) := by
  intro front back reclaimed
  obtain ⟨reclaimed', hstep⟩ := h front back reclaimed
  refine ⟨[], reclaimed', ?_⟩
  rw [List.append_nil]
  exact .single hstep

-- With this, attempts, polls, the end of a task and the fetching of results are such runs too, as they are
-- of every evolution.
theorem evolution_uses (config : Config) : Evolution config (@Uses κ config) where
  refl _ _ _ _ reclaimed := ⟨[], reclaimed, by rw [List.append_nil]⟩
  trans := .trans
  waiting call _ _ h := h.waiting call
  locked h hadmits := .step fun front back reclaimed =>
    ⟨reclaimed, .locked front back reclaimed h hadmits⟩

theorem addTask_uses (w : World κ) (time : Nat) (query catalog schema : String) (priority : Int)
    (h : w.scheduler.nextId + 1 ≠ 0) :
    Uses config none none w (w.addTask time query catalog schema priority).2 := by
  refine ((evolution_uses config).locked (.issue query catalog schema priority time h) rfl).trans
    (.step fun front back reclaimed => ⟨reclaimed, ?_⟩)
  rw [Option.toList_none, List.append_nil]
  exact .enter front back reclaimed _ (Pipeline.compile catalog schema query)

theorem releaseExecutors_uses (w : World κ) (task : TaskId) :
    Uses config none none w (w.releaseExecutors task).2 :=
  .step fun front back reclaimed => ⟨_, .release ⟨_, _, front ++ _ ++ back, reclaimed⟩ task⟩

end World

/-! ## What holds whenever the lock is free -/

namespace SchedulerState

variable {s s' : SchedulerState} {reclaimed : List TaskId} {id : TaskId}

/-- Running tasks hold their executors, but for those from which they were taken back. -/
structure Held (reclaimed : List TaskId) (s : SchedulerState) : Prop where
  names : (s.allocated.map (·.1)).Nodup
  held : ∀ t ∈ s.doings, t.id ∉ reclaimed → ∀ l ∈ t.executors, (l.name, t.id) ∈ s.allocated

theorem Held.fewer (h : Held reclaimed s) (hdoings : ∀ t ∈ s'.doings, t ∈ s.doings)
    (hallocated : s'.allocated = s.allocated) : Held reclaimed s' where
  names := hallocated ▸ h.names
  held t ht hid l hl := hallocated ▸ h.held t (hdoings t ht) hid l hl

/-- Executors are taken back from a task that does not run, or whose number is noted. -/
theorem Held.filter (h : Held reclaimed s) {reclaimed' : List TaskId}
    (hdoings : ∀ t ∈ s'.doings, t.id ∉ reclaimed' → t ∈ s.doings ∧ t.id ∉ reclaimed ∧ t.id ≠ id)
    (hallocated : s'.allocated = s.allocated.filter (·.2 ≠ id)) : Held reclaimed' s' where
  names := by
    rw [hallocated]
    exact (List.filter_sublist.map _).nodup h.names
  held t ht hid l hl := by
    obtain ⟨ht, hid, hne⟩ := hdoings t ht hid
    rw [hallocated]
    exact List.mem_filter.mpr ⟨h.held t ht hid l hl, decide_eq_true hne⟩

theorem Held.ended (h : Held reclaimed s) (hunique : s.ids.Nodup) (he : s.Ended id s')
    (hallocated : s'.allocated = s.allocated.filter (·.2 ≠ id)) : Held reclaimed s' :=
  h.filter (fun t ht hid =>
    have ⟨ht, hne⟩ := (he.mem_doings hunique t).mp ht
    ⟨ht, hid, hne⟩) hallocated

theorem Held.failDispatch (h : Held reclaimed s) (hunique : s.ids.Nodup) (id : TaskId) (fault : TaskFault)
    (free : Bool) : Held reclaimed (s.failDispatch id fault free) := by
  obtain ⟨hallocated, hcases⟩ := s.failDispatch_cases id fault free
  have hdoings : ∀ t ∈ (s.failDispatch id fault free).doings, t ∈ s.doings ∧ t.id ≠ id := by
    rcases hcases with ⟨he, _⟩ | ⟨hnone, heq⟩
    · exact fun t ht => (he.mem_doings hunique t).mp ht
    · rw [heq]
      exact fun t ht => ⟨ht, hnone t ht⟩
  cases free with
  | true => exact h.filter (fun t ht hid => ⟨(hdoings t ht).1, hid, (hdoings t ht).2⟩) hallocated
  | false => exact h.fewer (fun t ht => (hdoings t ht).1) hallocated

theorem Held.markDispatched (h : Held reclaimed s) (id : TaskId) :
    Held reclaimed (s.markDispatched id) := by
  have hmap := TaskList.map_update (fun t => (t.id, t.executors))
    (f := ({ · with dispatched := true })) (fun _ => rfl) id s.doings
  refine ⟨h.names, fun t ht hid l hl => ?_⟩
  obtain ⟨u, hu, heq⟩ := List.mem_map.mp (hmap ▸ List.mem_map_of_mem ht)
  obtain ⟨hsame, hexecutors⟩ := Prod.mk.inj heq
  exact hsame ▸ h.held u hu (hsame ▸ hid) l (hexecutors ▸ hl)

theorem Held.attempt {topology : Topology} {call : Option Underway} (h : Held reclaimed s)
    (ha : s.Attempt (s.free topology) call s') : Held reclaimed s' := by
  cases ha with
  | idle => exact h
  | refused => exact h.fewer (fun _ ht => ht) rfl
  | started _ hbind hid _ hexecutors =>
    refine ⟨allocate_nodup h.names _ _, fun t ht hnot l hl => ?_⟩
    rcases List.mem_append.mp ht with ht | ht
    · have hheld := h.held t ht hnot l hl
      exact mem_allocate.mpr (.inr ⟨bind_fresh hbind hheld, hheld⟩)
    · obtain rfl := List.mem_singleton.mp ht
      exact mem_allocate.mpr (.inl ⟨List.mem_map_of_mem (hexecutors ▸ hl), hid⟩)

theorem Attempt.todos_subset {free : List Location} {call : Option Underway}
    (ha : s.Attempt free call s') : s'.todos ⊆ s.todos := by
  cases ha with
  | idle => exact List.Subset.refl _
  | refused htodos | started htodos =>
    rw [htodos]
    exact List.subset_cons_self ..

end SchedulerState

open SchedulerState (Held)

namespace Locked

variable {config : Config} {topology : Topology} {before after : Option Underway}
  {s s' : SchedulerState} {reclaimed : List TaskId}

theorem held (h : Locked config topology before s after s') (hunique : s.ids.Nodup)
    (hheld : Held reclaimed s) : Held reclaimed s' := by
  cases h with
  | issue | poll | pass | polled | locate | store | missed => exact hheld.fewer (fun _ ht => ht) rfl
  | enqueue task compiled => cases compiled <;> exact hheld.fewer (fun _ ht => ht) rfl
  | start => exact hheld.attempt (s.startTask_attempt config (s.free topology))
  | dispatched id => exact hheld.markDispatched id
  | undispatched id fault => exact hheld.failDispatch hunique id fault config.abortOnDispatchFailure
  | finish h | close h =>
    obtain ⟨he, hallocated⟩ := SchedulerState.finish_ok h
    exact hheld.ended hunique he hallocated
  | release id h => exact hheld.filter (fun t ht hid => ⟨ht, hid, h t ht⟩) rfl

/-- A section that files no task leaves the queue or takes a task out of it. -/
theorem todos_subset (h : Locked config topology before s after s')
    (hadmits : before.bind Underway.admits = none) : s'.todos ⊆ s.todos := by
  cases h with
  | issue | dispatched | release | poll | pass | polled | locate | store | missed =>
    exact List.Subset.refl _
  | enqueue => cases hadmits
  | start => exact (s.startTask_attempt config (s.free topology)).todos_subset
  | undispatched id fault =>
    rcases (s.failDispatch_cases id fault config.abortOnDispatchFailure).2 with ⟨he, _⟩ | ⟨_, heq⟩
    · exact he.todos ▸ List.Subset.refl _
    · rw [heq]
      exact List.Subset.refl _
  | finish h | close h => exact (SchedulerState.finish_ok h).1.todos ▸ List.Subset.refl _

end Locked

namespace Usage

variable {config : Config} {x y : Usage}

structure Sound (x : Usage) : Prop where
  filed : Filed x.waiting x.scheduler
  fresh : ∀ c ∈ x.calls, c.Fresh
  counted : ∀ t ∈ x.scheduler.todos, t.Counted
  held : Held x.reclaimed x.scheduler

theorem sound_start (topology : Topology) : (start topology).Sound where
  filed := .start
  fresh := List.forall_mem_nil _
  counted := List.forall_mem_nil _
  held := ⟨List.nodup_nil, List.forall_mem_nil _⟩

theorem counted_enqueue {s : SchedulerState} (h : ∀ t ∈ s.todos, t.Counted) (task : Task)
    (compiled : Except PlanError Plan) :
    ∀ t ∈ (s.enqueue task (compiled >>= World.counted)).2.todos, t.Counted := by
  cases hcompiled : compiled >>= World.counted with
  | error e => exact h
  | ok c =>
    obtain ⟨plan, needed⟩ := c
    obtain ⟨compiledPlan, _, hcounted⟩ := bind_ok hcompiled
    obtain ⟨n, hcount, rfl⟩ := World.counted_ok hcounted
    intro t ht
    rcases List.mem_cons.mp ((TaskList.insert_perm _ _).mem_iff.mp ht) with rfl | ht
    · exact ⟨plan, n, rfl, hcount, rfl⟩
    · exact h t ht

theorem Sound.release (hx : x.Sound) (id : TaskId) : (x.release id).Sound where
  filed := ⟨hx.filed.unique, hx.filed.issued, hx.filed.status⟩
  fresh := hx.fresh
  counted := hx.counted
  held := by
    refine hx.held.filter (fun t ht hid => ?_) rfl
    have hmem : t.id ∈ x.scheduler.doings.map (·.id) := List.mem_map_of_mem ht
    simp only [Usage.release] at hid
    split at hid
    · exact ⟨ht, fun h => hid (List.mem_cons_of_mem _ h), fun h => hid (h ▸ List.mem_cons_self)⟩
    · rename_i hnot
      exact ⟨ht, hid, fun h => hnot (h ▸ hmem)⟩

theorem Sound.through {s s' : SchedulerState} {t : Topology} {before after : Option Underway}
    {front back : List Underway} {reclaimed : List TaskId}
    (hx : Sound ⟨s, t, front ++ before.toList ++ back, reclaimed⟩)
    (h : Locked config t before s after s') (hcounted : ∀ t ∈ s'.todos, t.Counted) :
    Sound ⟨s', t, front ++ after.toList ++ back, reclaimed⟩ := by
  obtain ⟨hbefore, hothers⟩ := Shared.forall_calls.mp hx.fresh
  have hfiled : Filed _ s := hx.filed.of_perm
    ((Shared.calls_perm _ front back before).symm.append_left _) rfl hx.filed.status
  have hnew := h.filed hbefore hfiled
  exact ⟨hnew.of_perm ((Shared.calls_perm _ front back after).append_left _) rfl hnew.status,
    Shared.forall_calls.mpr ⟨h.fresh, hothers⟩, hcounted,
    h.held (List.nodup_append.mp hx.filed.unique).1 hx.held⟩

theorem Sound.step (hx : x.Sound) (h : Step config x y) : y.Sound := by
  cases h with
  | release _ id => exact hx.release id
  | topology => exact ⟨hx.filed, hx.fresh, hx.counted, hx.held⟩
  | locked _ _ _ h hadmits =>
    exact hx.through h fun t ht => hx.counted t (h.todos_subset hadmits ht)
  | @enter s t front _ _ task compiled =>
    have hsection : Locked config t (some (.admission task)) s none
      (s.enqueue task (compiled >>= World.counted)).2 := .enqueue task _
    have hsound := Sound.through hx hsection (counted_enqueue hx.counted task compiled)
    rwa [Option.toList_none, List.append_nil] at hsound

theorem Sound.steps (hx : x.Sound) (h : Steps config x y) : y.Sound := by
  induction h with
  | refl => exact hx
  | tail _ hstep ih => exact ih.step hstep

theorem Steps.sound {topology : Topology} (h : Steps config (start topology) x) : x.Sound :=
  (sound_start topology).steps h

/-! ## Calls without others in between -/

/-- A query with a plan is admitted. -/
def admitted (x : Usage) (plan : Plan) : Usage :=
  let task : Task := { id := x.scheduler.takeId.1, catalog := "c", schema := "s" }
  { x with scheduler := (x.scheduler.takeId.2.enqueue task (World.counted plan)).2 }

/-- The first task of the queue starts, if it can. -/
def attempted (config : Config) (x : Usage) : Usage :=
  let (r, s) := x.scheduler.startTask config (x.scheduler.free x.topology)
  { x with scheduler := s, calls := x.calls ++ (Underway.ofStart r).toList }

theorem steps_admitted (x : Usage) (plan : Plan) (h : x.scheduler.nextId + 1 ≠ 0) :
    Steps config x (x.admitted plan) := by
  obtain ⟨s, t, calls, reclaimed⟩ := x
  have hissue := Step.locked calls [] reclaimed (@Locked.issue config t s "" "c" "s" 0 0 h) rfl
  have henter := @Step.enter config s.takeId.2 t calls [] reclaimed
    { id := s.takeId.1, catalog := "c", schema := "s" } (.ok plan)
  simp only [Option.toList_none, Option.toList_some, List.append_nil] at hissue henter
  exact .tail (.single hissue) henter

theorem steps_attempted (config : Config) (x : Usage) : Steps config x (x.attempted config) := by
  obtain ⟨s, t, calls, reclaimed⟩ := x
  have hstart := Step.locked calls [] reclaimed (@Locked.start config t s) rfl
  simp only [Option.toList_none, List.append_nil] at hstart
  exact .single hstart

end Usage
end QueryCluster

/-!
## Executors that are taken back

Taking executors back from a task frees those that it holds and touches no others. A task that does not
run loses nothing by it. One that runs loses all its executors, and they may be given to others while it
still runs on them. Running tasks from which nothing was ever taken back keep theirs for as long as they
run, and nobody else gets them.
-/
namespace QueryCluster

namespace SchedulerState

variable {s : SchedulerState} {id : TaskId}

/-- What a task holds becomes free, and nothing else does. -/
theorem lookup_release (hnames : (s.allocated.map (·.1)).Nodup) (id : TaskId) (name : String) :
    (s.release id).2.allocated.lookup name =
      if s.allocated.lookup name = some id then none else s.allocated.lookup name := by
  have hafter : ((s.release id).2.allocated.map (·.1)).Nodup := (List.filter_sublist.map _).nodup hnames
  have hmem : ∀ holder, (name, holder) ∈ (s.release id).2.allocated ↔
      (name, holder) ∈ s.allocated ∧ holder ≠ id := fun holder =>
    List.mem_filter.trans (and_congr_right' decide_eq_true_iff)
  refine Option.ext fun holder => ?_
  rw [lookup_eq_some_iff_mem hafter, hmem, ← lookup_eq_some_iff_mem hnames]
  split
  · rename_i heq
    rw [heq]
    exact ⟨fun ⟨h, hne⟩ => absurd (Option.some.inj h).symm hne, nofun⟩
  · rename_i hne
    exact ⟨And.left, fun h => ⟨h, fun heq => hne (heq ▸ h)⟩⟩

/-- A task that starts gets no executor that somebody holds. -/
theorem startTask_unheld {s' : SchedulerState} {config : Config} {topology : Topology} {start : Start}
    (h : s.startTask config (s.free topology) = (.ok (.inr start), s')) {e : String × TaskId}
    (he : e ∈ s.allocated) : ∀ a ∈ start.nodes, a.location.name ≠ e.1 := by
  obtain ⟨task, _, _, _, _, g, _, hbind, _, hnodes, _⟩ := startTask_eq_ok h
  intro a ha hname
  refine bind_fresh hbind he ?_
  rw [← hname, ← places_assignments task g, ← hnodes]
  exact List.mem_map_of_mem (List.mem_map_of_mem ha)

end SchedulerState

namespace Usage

variable {config : Config} {topology : Topology} {x y : Usage}

/-- A running task holds its executors, and a start gives none of them away. -/
structure Kept (config : Config) (y : Usage) (t : Task) : Prop where
  held : ∀ l ∈ t.executors, y.scheduler.allocated.lookup l.name = some t.id
  unshared : ∀ start s',
    y.scheduler.startTask config (y.scheduler.free y.topology) = (.ok (.inr start), s') →
    ∀ a ∈ start.nodes, ∀ l ∈ t.executors, a.location.name ≠ l.name

theorem Sound.kept (hx : x.Sound) {t : Task} (ht : t ∈ x.scheduler.doings) (hid : t.id ∉ x.reclaimed) :
    x.Kept config t where
  held l hl := (lookup_eq_some_iff_mem hx.held.names).mpr (hx.held.held t ht hid l hl)
  unshared _ _ hstart a ha l hl :=
    SchedulerState.startTask_unheld hstart (hx.held.held t ht hid l hl) a ha

/-- Taking executors back frees those that the task holds and no others. A running task from which they
were not taken back before still holds all its executors afterwards just if it is another task, or has
none. And whatever happens then, a running task from which executors were not taken back while it ran
holds all of its executors, and no other task gets one of them. -/
theorem release_spares_others (hx : Steps config (start topology) x) (id : TaskId) :
    (∀ name, (x.release id).scheduler.allocated.lookup name =
      if x.scheduler.allocated.lookup name = some id then none else x.scheduler.allocated.lookup name) ∧
    (∀ t ∈ x.scheduler.doings, t.id ∉ x.reclaimed →
      ((∀ l ∈ t.executors, (x.release id).scheduler.allocated.lookup l.name = some t.id) ↔
        t.id ≠ id ∨ t.executors = [])) ∧
    ∀ y, Steps config (x.release id) y →
      ∀ t ∈ y.scheduler.doings, t.id ∉ y.reclaimed → y.Kept config t := by
  have hsound := hx.sound
  have hlookup : ∀ name, (x.release id).scheduler.allocated.lookup name = _ := fun name =>
    SchedulerState.lookup_release hsound.held.names id name
  refine ⟨hlookup, fun t ht hid => ?_, fun y hy t ht hid => ?_⟩
  · have hheld := (hsound.kept ht hid : x.Kept config t).held
    refine ⟨fun h => ?_, fun h l hl => ?_⟩
    · by_contra hne
      obtain ⟨heq, hsome⟩ := not_or.mp hne
      obtain ⟨l, hl⟩ := List.exists_mem_of_ne_nil _ hsome
      have hafter := h l hl
      rw [hlookup, hheld l hl, if_pos (congrArg some (not_not.mp heq))] at hafter
      cases hafter
    · rcases h with hne | hnone
      · rw [hlookup, hheld l hl, if_neg fun heq => hne (Option.some.inj heq)]
      · rw [hnone] at hl
        cases hl
  · exact ((hsound.release id).steps hy).kept ht hid

section Lone

open Shared (loneTopology lonePlan)

/-- A task on the only executor there is. -/
def loneStarted : Usage := ((start loneTopology).admitted lonePlan).attempted {}

theorem steps_loneStarted : Steps {} (start loneTopology) loneStarted :=
  (steps_admitted _ lonePlan (by decide)).trans (steps_attempted {} _)

theorem release_spares_others_lone :
    loneStarted.scheduler.doings.map (·.id) = [1] ∧
      (loneStarted.release 2).scheduler.allocated.lookup "lone" = some 1 ∧
      (loneStarted.release 1).scheduler.allocated.lookup "lone" = none := by
  have hheld : loneStarted.scheduler.allocated.lookup "lone" = some 1 := by decide +kernel
  obtain ⟨hother, _⟩ := release_spares_others steps_loneStarted 2
  obtain ⟨hown, _⟩ := release_spares_others steps_loneStarted 1
  refine ⟨by decide +kernel, ?_, ?_⟩
  · rw [hother, hheld]
    decide
  · rw [hown, hheld]
    decide

/-- The executor is taken back from the task that runs on it, and the next task gets it too. -/
theorem not_release_spares_others :
    ¬ (∀ (config : Config) (topology : Topology) (x : Usage), Steps config (start topology) x → ∀ id,
      ∀ t ∈ x.scheduler.doings, ∀ l ∈ t.executors,
        (x.release id).scheduler.allocated.lookup l.name = some t.id) ∧
    (((loneStarted.release 1).admitted lonePlan).attempted {}).scheduler.doings.map
      (fun t => (t.id, t.executors.map (·.name))) = [(1, ["lone"]), (2, ["lone"])] := by
  refine ⟨fun h => ?_, by decide +kernel⟩
  have hlost : ∃ t ∈ loneStarted.scheduler.doings, ∃ l ∈ t.executors,
      (loneStarted.release 1).scheduler.allocated.lookup l.name ≠ some t.id := by decide +kernel
  obtain ⟨t, ht, l, hl, hne⟩ := hlost
  exact hne (h {} loneTopology loneStarted steps_loneStarted 1 t ht l hl)

end Lone

end Usage
end QueryCluster
