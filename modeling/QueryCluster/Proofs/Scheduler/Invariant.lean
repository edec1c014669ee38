import QueryCluster.Proofs.Graph.Counting
import QueryCluster.Proofs.Scheduler.Interleaving
import QueryCluster.Proofs.Scheduler.Lists

/-!
# What holds whenever the scheduler's lock is free

Each task stands in one list, the one that its status names, and running tasks hold the executors
they run on. Every section under the lock keeps this, so no order of sections breaks it: not a task
that ends while it is still dispatched or polled, nor executors that change hands in the meantime.
-/
namespace QueryCluster

namespace SchedulerState

/-- The list of the tasks with a status. -/
def listOf (s : SchedulerState) : TaskStatus → TaskList
  | .todo => s.todos
  | .doing => s.doings
  | .done => s.dones
  | .failed => s.fails

def tasks (s : SchedulerState) : TaskList := s.todos ++ s.doings ++ s.dones ++ s.fails

def ids (s : SchedulerState) : List TaskId := s.tasks.map (·.id)

theorem mem_tasks {s : SchedulerState} {t : Task} : t ∈ s.tasks ↔ ∃ status, t ∈ s.listOf status := by
  simp only [tasks, List.mem_append]
  constructor
  · rintro (((h | h) | h) | h)
    exacts [⟨.todo, h⟩, ⟨.doing, h⟩, ⟨.done, h⟩, ⟨.failed, h⟩]
  · rintro ⟨status, h⟩
    cases status with
    | todo => exact .inl (.inl (.inl h))
    | doing => exact .inl (.inl (.inr h))
    | done => exact .inl (.inr h)
    | failed => exact .inr h

/-- A number stands for one task. -/
theorem eq_of_id {s : SchedulerState} (hunique : s.ids.Nodup) {t u : Task} {i j : TaskStatus}
    (ht : t ∈ s.listOf i) (hu : u ∈ s.listOf j) (h : t.id = u.id) : t = u :=
  List.inj_on_of_nodup_map hunique (mem_tasks.mpr ⟨i, ht⟩) (mem_tasks.mpr ⟨j, hu⟩) h

/-- Each task has its own number, one that has been given out, and the status of its list. The tasks
that wait to be filed count too. -/
structure Filed (waiting : List TaskId) (s : SchedulerState) : Prop where
  unique : (s.ids ++ waiting).Nodup
  issued : ∀ id ∈ s.ids ++ waiting, id ≤ s.nextId
  status : ∀ status, ∀ t ∈ s.listOf status, t.status = status

theorem Filed.start : Filed [] {} where
  unique := List.nodup_nil
  issued := List.forall_mem_nil _
  status status := by cases status <;> exact List.forall_mem_nil _

/-- Running tasks hold their executors. What else is held belongs to a failed task, and only if
executors are not taken back from one. -/
structure Leased (strict : Bool) (s : SchedulerState) : Prop where
  names : (s.allocated.map (·.1)).Nodup
  held : ∀ t ∈ s.doings, ∀ l ∈ t.executors, (l.name, t.id) ∈ s.allocated
  holders : ∀ e ∈ s.allocated, (∃ t ∈ s.doings, t.id = e.2 ∧ e.1 ∈ t.executors.map (·.name)) ∨
    strict = false ∧ ∃ t ∈ s.fails, t.id = e.2

/-- A running task has been filed as one that ended. -/
structure Ended (id : TaskId) (s s' : SchedulerState) : Prop where
  todos : s'.todos = s.todos
  doings : ∃ t, t.id = id ∧ s.doings.Perm (t :: s'.doings)
  ended : ∃ t : Task, t.id = id ∧
    (t.status = .done ∧ s'.dones = s.dones ++ [t] ∧ s'.fails = s.fails ∨
      t.status = .failed ∧ s'.dones = s.dones ∧ s'.fails = s.fails ++ [t])
  nextId : s'.nextId = s.nextId

/-- What comes of an attempt to start a task: nothing, a task that cannot be built, or a running task
on executors that were free. -/
inductive Attempt (free : List Location) (s : SchedulerState) :
    Option Underway → SchedulerState → Prop
  | idle : Attempt free s none s
  | refused {task failed : Task} {todos : TaskList} (h : s.todos = task :: todos)
      (hid : failed.id = task.id) (hstatus : failed.status = .failed) :
      Attempt free s none { s with todos, fails := s.fails.push failed }
  | started {task started : Task} {todos : TaskList} {plan : Plan} {p : UInt64} {g : Graph}
      (h : s.todos = task :: todos) (hbind : (plan.bind p free).1 = .ok g)
      (hid : started.id = task.id) (hstatus : started.status = .doing)
      (hexecutors : started.executors = Plan.placesOf g.nodes) :
      Attempt free s (some (.dispatch task.id))
        { s.allocate task.id (Plan.placesOf g.nodes) with todos, doings := s.doings.push started }

section Sections

variable {s s' : SchedulerState} {id : TaskId}

theorem finish_eq_ok {success : Bool} {error : Option TaskFault} {rows : Option Split}
    (h : s.finish id success error rows = .ok s') :
    ∃ task doings, s.doings.take? id = some (task, doings) ∧ s' = { s with
      doings
      dones := if success then s.dones ++ [{ task with error, status := .done }] else s.dones
      fails := if success then s.fails else s.fails ++ [{ task with error, status := .failed }]
      results := rows.elim s.results fun rows => (id, rows) :: s.results.filter (·.1 ≠ id)
      allocated := s.allocated.filter (·.2 ≠ id) } := by
  rw [finish] at h
  split at h
  · cases h
  · rename_i task doings htake
    cases h
    refine ⟨task, doings, htake, ?_⟩
    cases success <;> cases rows <;> rfl

theorem finish_ok {success : Bool} {error : Option TaskFault} {rows : Option Split}
    (h : s.finish id success error rows = .ok s') :
    s.Ended id s' ∧ s'.allocated = s.allocated.filter (·.2 ≠ id) := by
  obtain ⟨task, doings, htake, rfl⟩ := finish_eq_ok h
  obtain ⟨hid, hperm⟩ := TaskList.take?_ok htake
  refine ⟨⟨rfl, ⟨task, hid, hperm⟩, ?_, rfl⟩, rfl⟩
  cases success with
  | true => exact ⟨{ task with error, status := .done }, hid, .inl ⟨rfl, rfl, rfl⟩⟩
  | false => exact ⟨{ task with error, status := .failed }, hid, .inr ⟨rfl, rfl, rfl⟩⟩

/-- A task whose dispatch failed ends as failed, if nobody ended it before. -/
theorem failDispatch_cases (s : SchedulerState) (id : TaskId) (fault : TaskFault) (free : Bool) :
    (s.failDispatch id fault free).allocated =
        (if free then s.allocated.filter (·.2 ≠ id) else s.allocated) ∧
      (s.Ended id (s.failDispatch id fault free) ∧
          (∃ t ∈ (s.failDispatch id fault free).fails, t.id = id) ∨
        (∀ t ∈ s.doings, t.id ≠ id) ∧
          s.failDispatch id fault free = { s with allocated := (s.failDispatch id fault free).allocated }) := by
  rcases htake : s.doings.take? id with _ | ⟨task, doings⟩
  · simp only [failDispatch, htake]
    refine ⟨?_, .inr ⟨TaskList.take?_none htake, ?_⟩⟩
    all_goals cases free <;> rfl
  · obtain ⟨hid, hperm⟩ := TaskList.take?_ok htake
    let failed := { task with status := .failed, error := some fault }
    simp only [failDispatch, htake]
    refine ⟨?_, .inl ⟨⟨?_, ⟨task, hid, ?_⟩, ⟨failed, hid, .inr ⟨rfl, ?_, ?_⟩⟩, ?_⟩, failed, ?_, hid⟩⟩
    all_goals cases free <;> first | rfl | exact hperm | exact List.mem_append_right _ (List.mem_singleton_self _)

theorem places_assignments (task : Task) (g : Graph) :
    (assignments task g).map (·.location) = Plan.placesOf g.nodes := by
  rw [assignments, List.map_map]
  rfl

theorem startTask_attempt (s : SchedulerState) (config : Config) (free : List Location) :
    s.Attempt free (Underway.ofStart (s.startTask config free).1) (s.startTask config free).2 := by
  rw [startTask]
  rcases htodos : s.todos with _ | ⟨task, todos⟩
  · exact .idle
  simp only
  split
  · exact .idle
  split
  · exact .idle
  rename_i plan _
  split
  · exact .idle
  rename_i p _
  rcases hbind : (plan.bind (.ofNat p) free).1 with e | g
  · exact .refused htodos rfl rfl
  · simp only [places_assignments]
    exact .started htodos hbind rfl rfl rfl

theorem startTask_eq_ok {config : Config} {free : List Location} {start : Start}
    (h : s.startTask config free = (.ok (.inr start), s')) :
    ∃ (task started : Task) (todos : TaskList) (plan : Plan) (p : UInt64) (g : Graph),
      s.todos = task :: todos ∧ (plan.bind p free).1 = .ok g ∧
      start.task = task.id ∧ start.nodes = assignments task g ∧
      started.id = task.id ∧ started.executors = Plan.placesOf g.nodes ∧
      s' = { s.allocate task.id (Plan.placesOf g.nodes) with todos, doings := s.doings.push started } := by
  rw [startTask] at h
  rcases htodos : s.todos with _ | ⟨task, todos⟩ <;> rw [htodos] at h
  · cases h
  dsimp only at h
  split at h
  · cases h
  split at h
  · cases h
  rename_i plan _
  split at h
  · cases h
  rename_i p _
  rcases hbind : (plan.bind (.ofNat p) free).1 with e | g <;> simp only [hbind, places_assignments] at h
  · cases h
  · cases h
    let started : Task := { task with
      status := .doing
      parallelism := p
      executorNumber := (assignments task g).length
      executors := Plan.placesOf g.nodes
      root := some g.root.location }
    exact ⟨task, started, todos, plan, .ofNat p, g, rfl, hbind, rfl, rfl, rfl, rfl, rfl⟩

theorem startTask_eq_error {config : Config} {free : List Location} {e : SchedulerError}
    (h : s.startTask config free = (.error e, s')) (task : TaskId) (phase : Phase) (name : String)
    (error : RpcError) : e ≠ .dispatch task phase name error := by
  rintro rfl
  rw [startTask] at h
  split at h
  · cases h
  dsimp only at h
  split at h
  · cases h
  split at h
  · cases h
  split at h
  · cases h
  split at h <;> cases h

end Sections

section Filing

variable {s s' : SchedulerState} {waiting waiting' : List TaskId} {id : TaskId}

theorem Filed.of_perm (h : Filed waiting s) (hids : (s'.ids ++ waiting').Perm (s.ids ++ waiting))
    (hnext : s'.nextId = s.nextId) (hstatus : ∀ status, ∀ t ∈ s'.listOf status, t.status = status) :
    Filed waiting' s' where
  unique := hids.nodup_iff.mpr h.unique
  issued id hid := hnext ▸ h.issued id (hids.mem_iff.mp hid)
  status := hstatus

theorem Filed.issue (h : Filed waiting s) (hnext : s.nextId + 1 ≠ 0) :
    Filed ((s.nextId + 1) :: waiting) s.takeId.2 := by
  have hlt : s.nextId < s.nextId + 1 := by
    rw [UInt64.lt_iff_toNat_lt, UInt64.toNat_add]
    have := UInt64.toNat_inj.not.mpr hnext
    rw [UInt64.toNat_add] at this
    have hbound := s.nextId.toNat_lt
    simp at this ⊢
    omega
  have hids : s.takeId.2.ids = s.ids := rfl
  refine ⟨?_, fun id hid => ?_, h.status⟩
  · rw [hids]
    refine List.perm_middle.nodup_iff.mpr (List.nodup_cons.mpr ⟨fun hmem => ?_, h.unique⟩)
    exact absurd (h.issued _ hmem) (UInt64.not_le.mpr hlt)
  · rw [hids] at hid
    rcases List.mem_cons.mp (List.perm_middle.mem_iff.mp hid) with rfl | hid
    · exact UInt64.le_refl _
    · exact UInt64.le_trans (h.issued id hid) (UInt64.le_of_lt hlt)

theorem ids_enqueue (s : SchedulerState) (task : Task) (compiled : Except PlanError (Plan × Nat)) :
    (s.enqueue task compiled).2.ids.Perm (task.id :: s.ids) := by
  cases compiled with
  | ok c =>
    have hinsert := TaskList.insert_perm s.todos { task with plan := some c.1, executorNumber := c.2 }
    simp only [enqueue, ids, tasks, List.append_assoc, List.map_append]
    exact (hinsert.map (·.id)).append_right _
  | error e =>
    simp only [enqueue, ids, tasks, TaskList.push, List.map_append, ← List.append_assoc]
    exact List.perm_append_singleton ..

theorem ids_ended (h : s.Ended id s') : s'.ids.Perm s.ids := by
  obtain ⟨t, ht, hdoings⟩ := h.doings
  obtain ⟨u, hu, hended⟩ := h.ended
  refine List.perm_iff_count.mpr fun x => ?_
  have hcount := (hdoings.map (·.id)).count_eq x
  simp only [List.map_cons, ht, List.count_cons] at hcount
  simp only [ids, tasks, List.map_append, List.count_append, h.todos]
  rcases hended with ⟨_, hdones, hfails⟩ | ⟨_, hdones, hfails⟩
  all_goals
    rw [hdones, hfails, List.map_append, List.count_append, List.map_singleton, hu,
      List.count_singleton]
    omega

theorem ids_attempt {free : List Location} {call : Option Underway} (h : s.Attempt free call s') :
    s'.ids.Perm s.ids := by
  refine List.perm_iff_count.mpr fun x => ?_
  cases h with
  | idle => rfl
  | refused h hid _ | started h _ hid _ _ =>
    simp only [ids, tasks, h, allocate, TaskList.push, List.map_append, List.map_cons, List.map_nil, hid,
      List.count_append, List.count_cons, List.count_nil]
    omega

theorem Filed.enqueue {task : Task} (h : Filed (task.id :: waiting) s) (hstatus : task.status = .todo)
    (compiled : Except PlanError (Plan × Nat)) : Filed waiting (s.enqueue task compiled).2 := by
  refine h.of_perm (((ids_enqueue s task compiled).append_right waiting).trans
    List.perm_middle.symm) (by cases compiled <;> rfl) fun status t ht => ?_
  have hold := fun ht => h.status status t ht
  cases compiled with
  | ok c =>
    cases status with
    | todo =>
      rcases List.mem_cons.mp ((TaskList.insert_perm _ _).mem_iff.mp ht) with rfl | ht
      · exact hstatus
      · exact hold ht
    | doing | done | failed => exact hold ht
  | error e =>
    cases status with
    | failed =>
      rcases List.mem_append.mp ht with ht | ht
      · exact hold ht
      · rw [List.mem_singleton.mp ht]
    | todo | doing | done => exact hold ht

theorem Filed.ended (h : Filed waiting s) (he : s.Ended id s') : Filed waiting s' := by
  refine h.of_perm ((ids_ended he).append_right waiting) he.nextId fun status t ht => ?_
  obtain ⟨u, _, hended⟩ := he.ended
  obtain ⟨_, _, hdoings⟩ := he.doings
  have hold := fun ht => h.status status t ht
  cases status with
  | todo => exact hold (by rw [listOf, ← he.todos]; exact ht)
  | doing => exact hold (hdoings.mem_iff.mpr (List.mem_cons_of_mem _ ht))
  | done | failed =>
    rcases hended with ⟨hu, hdones, hfails⟩ | ⟨hu, hdones, hfails⟩
    all_goals
      simp only [listOf, hdones, hfails, List.mem_append, List.mem_singleton] at ht
      first | exact hold ht | exact ht.elim hold fun ht => ht ▸ hu

theorem Filed.failDispatch (h : Filed waiting s) (id : TaskId) (fault : TaskFault) (free : Bool) :
    Filed waiting (s.failDispatch id fault free) := by
  rcases (s.failDispatch_cases id fault free).2 with ⟨he, _⟩ | ⟨_, heq⟩
  · exact h.ended he
  · rw [heq]
    exact ⟨h.unique, h.issued, h.status⟩

theorem Filed.attempt {free : List Location} {call : Option Underway} (h : Filed waiting s)
    (ha : s.Attempt free call s') : Filed waiting s' := by
  refine h.of_perm ((ids_attempt ha).append_right waiting) (by cases ha <;> rfl)
    fun status t ht => ?_
  have hold := fun ht => h.status status t ht
  cases ha with
  | idle => exact hold ht
  | refused htodos hid hstatus =>
    cases status with
    | todo => exact hold (by rw [listOf, htodos]; exact List.mem_cons_of_mem _ ht)
    | failed =>
      rcases List.mem_append.mp ht with ht | ht
      · exact hold ht
      · rw [List.mem_singleton.mp ht, hstatus]
    | doing | done => exact hold ht
  | started htodos _ hid hstatus _ =>
    cases status with
    | todo => exact hold (by rw [listOf, htodos]; exact List.mem_cons_of_mem _ ht)
    | doing =>
      rcases List.mem_append.mp ht with ht | ht
      · exact hold ht
      · rw [List.mem_singleton.mp ht, hstatus]
    | done | failed => exact hold ht

theorem ids_markDispatched (s : SchedulerState) (id : TaskId) : (s.markDispatched id).ids = s.ids := by
  simp only [ids, tasks, markDispatched, List.map_append,
    TaskList.map_update (·.id) (f := ({ · with dispatched := true })) (fun _ => rfl)]

theorem Filed.markDispatched (h : Filed waiting s) (id : TaskId) :
    Filed waiting (s.markDispatched id) := by
  refine h.of_perm (.of_eq (by rw [ids_markDispatched])) rfl fun status t ht => ?_
  cases status with
  | doing =>
    have hmap := TaskList.map_update (·.status) (f := ({ · with dispatched := true }))
      (fun _ => rfl) id s.doings
    obtain ⟨u, hu, heq⟩ := List.mem_map.mp (hmap ▸ List.mem_map_of_mem ht)
    exact heq ▸ h.status .doing u hu
  | todo | done | failed => exact h.status _ t ht

end Filing

section Leases

variable {s s' : SchedulerState} {strict : Bool} {id : TaskId}

theorem Leased.of_same (h : Leased strict s) (hdoings : s'.doings = s.doings)
    (hfails : ∀ t ∈ s.fails, t ∈ s'.fails) (hallocated : s'.allocated = s.allocated) :
    Leased strict s' where
  names := hallocated ▸ h.names
  held t ht l hl := by
    rw [hallocated]
    exact h.held t (hdoings ▸ ht) l hl
  holders e he := by
    rw [hdoings]
    rw [hallocated] at he
    exact (h.holders e he).imp id fun ⟨hstrict, t, ht, hid⟩ => ⟨hstrict, t, hfails t ht, hid⟩

/-- Executors are taken back from a task that no longer runs. -/
theorem Leased.release (h : Leased strict s)
    (hdoings : ∀ t, t ∈ s'.doings ↔ t ∈ s.doings ∧ t.id ≠ id) (hfails : ∀ t ∈ s.fails, t ∈ s'.fails)
    (hallocated : s'.allocated = s.allocated.filter (·.2 ≠ id)) : Leased strict s' where
  names := by
    rw [hallocated]
    exact (List.filter_sublist.map _).nodup h.names
  held t ht l hl := by
    obtain ⟨ht, hne⟩ := (hdoings t).mp ht
    rw [hallocated]
    exact List.mem_filter.mpr ⟨h.held t ht l hl, decide_eq_true hne⟩
  holders e he := by
    rw [hallocated] at he
    obtain ⟨he, hne⟩ := List.mem_filter.mp he
    rcases h.holders e he with ⟨t, ht, hid, hname⟩ | ⟨hstrict, t, ht, hid⟩
    · exact .inl ⟨t, (hdoings t).mpr ⟨ht, hid ▸ of_decide_eq_true hne⟩, hid, hname⟩
    · exact .inr ⟨hstrict, t, hfails t ht, hid⟩

theorem nodup_doings (hunique : s.ids.Nodup) : (s.doings.map (·.id)).Nodup := by
  refine List.Sublist.nodup (List.Sublist.map _ ?_) hunique
  exact ((List.sublist_append_right ..).trans (List.sublist_append_left ..)).trans
    (List.sublist_append_left ..)

theorem Ended.mem_doings (he : s.Ended id s') (hunique : s.ids.Nodup) (t : Task) :
    t ∈ s'.doings ↔ t ∈ s.doings ∧ t.id ≠ id := by
  obtain ⟨u, hu, hdoings⟩ := he.doings
  have hcons := (hdoings.map (·.id)).nodup_iff.mp (nodup_doings hunique)
  rw [hdoings.mem_iff, List.mem_cons]
  refine ⟨fun ht => ⟨.inr ht, fun hid => ?_⟩, fun ⟨ht, hid⟩ => ht.resolve_left fun heq => ?_⟩
  · exact (List.nodup_cons.mp hcons).1 (List.mem_map.mpr ⟨t, ht, hid.trans hu.symm⟩)
  · exact hid (heq ▸ hu)

theorem Ended.mem_fails (he : s.Ended id s') : ∀ t ∈ s.fails, t ∈ s'.fails := by
  obtain ⟨u, _, ⟨_, _, hfails⟩ | ⟨_, _, hfails⟩⟩ := he.ended
  · exact fun t ht => hfails ▸ ht
  · exact fun t ht => hfails ▸ List.mem_append_left _ ht

theorem Leased.ended (h : Leased strict s) (hunique : s.ids.Nodup) (he : s.Ended id s')
    (hallocated : s'.allocated = s.allocated.filter (·.2 ≠ id)) : Leased strict s' :=
  h.release (he.mem_doings hunique) he.mem_fails hallocated

/-- A task that failed keeps its executors. -/
theorem Leased.kept (h : Leased false s) (hunique : s.ids.Nodup) (he : s.Ended id s')
    (hfailed : ∃ t ∈ s'.fails, t.id = id) (hallocated : s'.allocated = s.allocated) :
    Leased false s' where
  names := hallocated ▸ h.names
  held t ht l hl := by
    rw [hallocated]
    exact h.held t ((he.mem_doings hunique t).mp ht).1 l hl
  holders e hmem := by
    rw [hallocated] at hmem
    rcases h.holders e hmem with ⟨t, ht, hid, hname⟩ | ⟨hstrict, t, ht, hid⟩
    · by_cases heq : t.id = id
      · obtain ⟨u, hu, huid⟩ := hfailed
        exact .inr ⟨rfl, u, hu, huid.trans (heq.symm.trans hid)⟩
      · exact .inl ⟨t, (he.mem_doings hunique t).mpr ⟨ht, heq⟩, hid, hname⟩
    · exact .inr ⟨hstrict, t, he.mem_fails t ht, hid⟩

theorem Leased.failDispatch {config : Config} (h : Leased config.abortOnDispatchFailure s)
    (hunique : s.ids.Nodup) (id : TaskId) (fault : TaskFault) :
    Leased config.abortOnDispatchFailure
      (s.failDispatch id fault config.abortOnDispatchFailure) := by
  obtain ⟨hallocated, hcases⟩ := failDispatch_cases s id fault config.abortOnDispatchFailure
  cases hstrict : config.abortOnDispatchFailure with
  | true =>
    rw [hstrict] at h hallocated hcases
    rcases hcases with ⟨he, _⟩ | ⟨hnone, heq⟩
    · exact h.ended hunique he hallocated
    · have hkept : (s.failDispatch id fault true).allocated = s.allocated.filter (·.2 ≠ id) :=
        hallocated
      refine h.release (fun t => ?_) (fun t ht => ?_) hkept
      · rw [heq]
        exact ⟨fun ht => ⟨ht, hnone t ht⟩, And.left⟩
      · rw [heq]
        exact ht
  | false =>
    rw [hstrict] at h hallocated hcases
    rcases hcases with ⟨he, hfailed⟩ | ⟨_, heq⟩
    · exact h.kept hunique he hfailed hallocated
    · exact h.of_same (by rw [heq]) (fun t ht => by rw [heq]; exact ht) hallocated

theorem Leased.markDispatched (h : Leased strict s) (id : TaskId) :
    Leased strict (s.markDispatched id) := by
  have hmap := TaskList.map_update (fun t => (t.id, t.executors))
    (f := ({ · with dispatched := true })) (fun _ => rfl) id s.doings
  refine ⟨h.names, fun t ht l hl => ?_, fun e he => ?_⟩
  · obtain ⟨u, hu, heq⟩ := List.mem_map.mp (hmap ▸ List.mem_map_of_mem ht)
    obtain ⟨hid, hexecutors⟩ := Prod.mk.inj heq
    exact hid ▸ h.held u hu l (hexecutors ▸ hl)
  · refine (h.holders e he).imp (fun ⟨t, ht, hid, hname⟩ => ?_) fun h => h
    obtain ⟨u, hu, heq⟩ := List.mem_map.mp (hmap.symm ▸ List.mem_map_of_mem ht)
    obtain ⟨hsame, hexecutors⟩ := Prod.mk.inj heq
    exact ⟨u, hu, hsame.trans hid, hexecutors ▸ hname⟩

theorem nodup_free {topology : Topology} (hnames : (topology.map (·.location.name)).Nodup) :
    (s.free topology).Nodup := by
  refine List.Nodup.of_map (·.name) ?_
  rw [free, List.map_map]
  exact (List.filter_sublist.map _).nodup hnames

/-- Nobody holds an executor that a plan is bound to. -/
theorem bind_fresh {topology : Topology} {plan : Plan} {p : UInt64} {g : Graph} {e : String × TaskId}
    (hbind : (plan.bind p (s.free topology)).1 = .ok g) (he : e ∈ s.allocated) : e.1 ∉ (Plan.placesOf g.nodes).map (·.name) := by
  intro hmem
  obtain ⟨l, hl, hname⟩ := List.mem_map.mp hmem
  exact not_allocated_of_free (Plan.bind_places_free hbind l hl)
    (List.mem_map.mpr ⟨e, he, hname.symm⟩)

theorem Attempt.mem_fails {free : List Location} {call : Option Underway} (ha : s.Attempt free call s') :
    ∀ t ∈ s.fails, t ∈ s'.fails := by
  intro t ht
  cases ha with
  | idle | started => exact ht
  | refused => exact List.mem_append_left _ ht

/-- Executors that are held are given to nobody else. -/
theorem Attempt.mem_allocated {topology : Topology} {call : Option Underway}
    (ha : s.Attempt (s.free topology) call s') {e : String × TaskId} (he : e ∈ s.allocated) :
    e ∈ s'.allocated := by
  cases ha with
  | idle | refused => exact he
  | started _ hbind => exact mem_allocate.mpr (.inr ⟨bind_fresh hbind he, he⟩)

theorem Leased.attempt {topology : Topology} {call : Option Underway} (h : Leased strict s)
    (ha : s.Attempt (s.free topology) call s') : Leased strict s' := by
  cases ha with
  | idle => exact h
  | refused => exact h.of_same rfl (fun t ht => List.mem_append_left _ ht) rfl
  | @started task started _ plan p g _ hbind hid _ hexecutors =>
    have hfresh := fun e => @bind_fresh _ _ _ _ _ e hbind
    refine ⟨allocate_nodup h.names _ _, fun t ht l hl => ?_, fun e he => ?_⟩
    · rcases List.mem_append.mp ht with ht | ht
      · have hheld := h.held t ht l hl
        exact mem_allocate.mpr (.inr ⟨hfresh _ hheld, hheld⟩)
      · obtain rfl := List.mem_singleton.mp ht
        exact mem_allocate.mpr (.inl ⟨List.mem_map_of_mem (hexecutors ▸ hl), hid⟩)
    · rcases mem_allocate.mp he with ⟨hmem, heq⟩ | ⟨_, he⟩
      · exact .inl ⟨started, List.mem_append_right _ (List.mem_singleton_self _),
          hid.trans heq.symm, hexecutors ▸ hmem⟩
      · exact (h.holders e he).imp (fun ⟨t, ht, h⟩ => ⟨t, List.mem_append_left _ ht, h⟩) fun h => h

end Leases

end SchedulerState
end QueryCluster
