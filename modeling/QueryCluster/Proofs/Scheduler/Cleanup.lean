import QueryCluster.Proofs.Graph.Counting
import QueryCluster.Proofs.Scheduler.Barrier
import QueryCluster.Proofs.Scheduler.Consistency

/-!
# After a failed dispatch

From the moment it is started a task holds its executors, whatever else goes on, until it ends or gives them
back. So when its dispatch fails and those that were sent an instruction are told to abort, none of them has
been given to anybody else; and where none is told, all stay with the task that failed.
-/
namespace QueryCluster

open Relation (ReflTransGen)
open Exchange (Chain asked)

/-- What others may do next to a task without giving its executors back: go through any sections of calls
of theirs, under numbers of their own, and release other tasks. -/
inductive Beside (config : Config) (id : TaskId) : SchedulerState → SchedulerState → Prop
  | locked {topology : Topology} {before after : Option Underway} {s s' : SchedulerState}
      (hnames : (topology.map (·.location.name)).Nodup) (h : Locked config topology before s after s')
      (hadmits : before.bind Underway.admits ≠ some id) (hkept : s' ≠ (s.release id).2) :
      Beside config id s s'
  | release {s : SchedulerState} (other : TaskId) (h : other ≠ id) : Beside config id s (s.release other).2

/-- What others may do while a task is running. -/
def Meanwhile (config : Config) (id : TaskId) (s s' : SchedulerState) : Prop :=
  Beside config id s s' ∧ ∃ t ∈ s'.doings, t.id = id

namespace SchedulerState

/-- The only task of its number is in the list of a status and has these executors. -/
structure Holds (status : TaskStatus) (id : TaskId) (executors : List Location) (s : SchedulerState) :
    Prop where
  once : s.ids.count id = 1
  stands : ∃ t ∈ s.listOf status, t.id = id
  held : ∀ l ∈ executors, (l.name, id) ∈ s.allocated

variable {s s' : SchedulerState} {id : TaskId} {status : TaskStatus} {executors : List Location}

theorem status_unique (h : s.ids.count id = 1) {i j : TaskStatus} {t u : Task} (ht : t ∈ s.listOf i)
    (hu : u ∈ s.listOf j) (htid : t.id = id) (huid : u.id = id) : i = j := by
  have hpos : ∀ k v, v ∈ s.listOf k → v.id = id → 0 < ((s.listOf k).map (·.id)).count id :=
    fun k v hv hid => List.count_pos_iff.mpr (hid ▸ List.mem_map_of_mem hv)
  have hi := hpos i t ht htid
  have hj := hpos j u hu huid
  simp only [ids, tasks, List.map_append, List.count_append] at h
  cases i <;> cases j <;> simp only [listOf] at hi hj <;> first | rfl | omega

/-- A started task has all the executors of its nodes. -/
theorem startTask_holds {config : Config} {free : List Location} {start : Start} (hunique : s.ids.Nodup)
    (h : s.startTask config free = (.ok (.inr start), s')) :
    s'.Holds .doing start.task (start.nodes.map (·.location)) := by
  have hids := ids_attempt (s.startTask_attempt config free)
  rw [h] at hids
  obtain ⟨task, started, todos, plan, p, g, htodos, _, htask, hnodes, hid, _, rfl⟩ := startTask_eq_ok h
  rw [htask, hnodes, places_assignments]
  have hmem : task.id ∈ s.ids := by
    refine List.mem_map_of_mem (mem_tasks.mpr ⟨.todo, ?_⟩)
    rw [listOf, htodos]
    exact List.mem_cons_self
  refine ⟨?_, ⟨started, List.mem_append_right _ List.mem_cons_self, hid⟩, fun l hl => ?_⟩
  · exact List.count_eq_one_of_mem (hids.nodup_iff.mpr hunique) (hids.mem_iff.mpr hmem)
  · exact mem_allocate.mpr (.inl ⟨List.mem_map_of_mem hl, rfl⟩)

/-- A running task whose dispatch failed has failed for that reason. -/
theorem Holds.failDispatch (h : s.Holds .doing id executors) (fault : TaskFault) (free : Bool) :
    (∃ t ∈ (s.failDispatch id fault free).fails, t.id = id ∧ t.status = .failed ∧ t.error = some fault) ∧
      (s.failDispatch id fault free).ids.count id = 1 ∧
      (s.failDispatch id fault free).allocated =
        if free then s.allocated.filter (·.2 ≠ id) else s.allocated := by
  obtain ⟨hallocated, hcases⟩ := s.failDispatch_cases id fault free
  obtain ⟨t, ht, hid⟩ := h.stands
  rcases hcases with ⟨he, _⟩ | ⟨hnone, _⟩
  · refine ⟨?_, (ids_ended he).count_eq id ▸ h.once, hallocated⟩
    rcases htake : s.doings.take? id with _ | ⟨task, doings⟩
    · exact absurd hid (TaskList.take?_none htake t ht)
    · refine ⟨{ task with status := .failed, error := some fault }, ?_, (TaskList.take?_ok htake).1,
        rfl, rfl⟩
      simp only [SchedulerState.failDispatch, htake]
      split
      all_goals exact List.mem_append_right _ (List.mem_singleton_self _)
  · exact absurd hid (hnone t ht)

end SchedulerState

open SchedulerState (Holds)

namespace Locked

variable {config : Config} {topology : Topology} {before after : Option Underway} {s s' : SchedulerState}

/-- What a section does to the executors of a task. -/
theorem leaves (h : Locked config topology before s after s') (id : TaskId) :
    (∀ name, (name, id) ∈ s.allocated → (name, id) ∈ s'.allocated) ∨ s.Ended id s' ∨
      s' = (s.release id).2 := by
  have hfiltered : ∀ other : TaskId, other ≠ id → ∀ name, (name, id) ∈ s.allocated →
      (name, id) ∈ s.allocated.filter (·.2 ≠ other) := fun other hne name hmem =>
    List.mem_filter.mpr ⟨hmem, decide_eq_true (Ne.symm hne)⟩
  have hended : ∀ other : TaskId, s.Ended other s' → s'.allocated = s.allocated.filter (·.2 ≠ other) →
      (∀ name, (name, id) ∈ s.allocated → (name, id) ∈ s'.allocated) ∨ s.Ended id s' ∨
        s' = (s.release id).2 := by
    intro other he hallocated
    by_cases heq : other = id
    · exact .inr (.inl (heq ▸ he))
    · exact .inl fun name hmem => hallocated ▸ hfiltered other heq name hmem
  cases h with
  | issue | poll | pass | polled | locate | store | missed | dispatched => exact .inl fun _ h => h
  | enqueue task compiled => exact .inl fun name hmem => by cases compiled <;> exact hmem
  | start => exact .inl fun name hmem => (s.startTask_attempt config _).mem_allocated hmem
  | undispatched other fault =>
    obtain ⟨hallocated, hcases⟩ := s.failDispatch_cases other fault config.abortOnDispatchFailure
    by_cases heq : other = id
    · subst heq
      -- a task that does not run any more only gives its executors back, if any
      rcases hcases with ⟨he, _⟩ | ⟨_, hsame⟩
      · exact .inr (.inl he)
      · split at hallocated
        · exact .inr (.inr (hsame.trans (by rw [hallocated]; rfl)))
        · exact .inl fun name hmem => hallocated ▸ hmem
    · refine .inl fun name hmem => ?_
      rw [hallocated]
      split
      · exact hfiltered other heq name hmem
      · exact hmem
  | finish h | close h =>
    obtain ⟨he, hallocated⟩ := SchedulerState.finish_ok h
    exact hended _ he hallocated
  | release other =>
    by_cases heq : other = id
    · exact .inr (.inr (heq ▸ rfl))
    · exact .inl (hfiltered other heq)

theorem mem_fails (h : Locked config topology before s after s') : ∀ t ∈ s.fails, t ∈ s'.fails := by
  intro t ht
  cases h with
  | issue | poll | pass | polled | locate | store | missed | dispatched | release => exact ht
  | enqueue task compiled =>
    cases compiled with
    | ok => exact ht
    | error => exact List.mem_append_left _ ht
  | start => exact (s.startTask_attempt config _).mem_fails t ht
  | undispatched task fault =>
    rcases (s.failDispatch_cases task fault config.abortOnDispatchFailure).2 with ⟨he, _⟩ | ⟨_, heq⟩
    · exact he.mem_fails t ht
    · rw [heq]
      exact ht
  | finish h | close h => exact (SchedulerState.finish_ok h).1.mem_fails t ht

end Locked

namespace SchedulerState

variable {config : Config} {id : TaskId} {s s' : SchedulerState} {executors : List Location}

/-- A task that neither ends nor gives its executors back keeps them. -/
theorem Holds.beside {status : TaskStatus} (h : s.Holds status id executors) (hb : Beside config id s s')
    (hstands : ∃ t ∈ s'.listOf status, t.id = id) (hended : ¬ s.Ended id s') :
    s'.Holds status id executors := by
  cases hb with
  | locked _ hlocked hadmits hkept =>
    refine ⟨?_, hstands, fun l hl => ?_⟩
    · rw [hlocked.ids_perm.count_eq, List.count_append, h.once, List.count_eq_zero.mpr]
      rwa [Option.mem_toList]
    · rcases hlocked.leaves id with hleaves | he | hreleased
      · exact hleaves _ (h.held l hl)
      · exact absurd he hended
      · exact absurd hreleased hkept
  | release other hne =>
    exact ⟨h.once, hstands, fun l hl => List.mem_filter.mpr ⟨h.held l hl, decide_eq_true hne.symm⟩⟩

theorem Holds.meanwhile (h : s.Holds .doing id executors) (hm : Meanwhile config id s s') :
    s'.Holds .doing id executors := by
  obtain ⟨hb, t, ht, hid⟩ := hm
  refine h.beside hb ⟨t, ht, hid⟩ fun he => ?_
  have honce : s'.ids.count id = 1 := (SchedulerState.ids_ended he).count_eq id ▸ h.once
  -- what ended is filed as ended
  obtain ⟨u, hu, ⟨_, hdones, _⟩ | ⟨_, _, hfails⟩⟩ := he.ended
  · have hmem : u ∈ s'.dones := hdones ▸ List.mem_append_right _ (List.mem_singleton_self u)
    exact nomatch @status_unique s' id honce .doing .done t u ht hmem hid hu
  · have hmem : u ∈ s'.fails := hfails ▸ List.mem_append_right _ (List.mem_singleton_self u)
    exact nomatch @status_unique s' id honce .doing .failed t u ht hmem hid hu

theorem Holds.afterwards (h : s.Holds .failed id executors) (hb : Beside config id s s') :
    s'.Holds .failed id executors := by
  obtain ⟨t, ht, hid⟩ := h.stands
  refine h.beside hb ⟨t, ?_, hid⟩ fun he => ?_
  · cases hb with
    | locked _ hlocked => exact hlocked.mem_fails t ht
    | release => exact ht
  · obtain ⟨u, hu, hdoings⟩ := he.doings
    have hmem : u ∈ s.doings := hdoings.mem_iff.mpr List.mem_cons_self
    exact nomatch @status_unique s id h.once .failed .doing t u ht hmem hid hu

theorem Holds.meanwhile_all (h : s.Holds .doing id executors)
    (hsteps : ReflTransGen (Meanwhile config id) s s') : s'.Holds .doing id executors := by
  induction hsteps with
  | refl => exact h
  | tail _ hstep ih => exact ih.meanwhile hstep

theorem Holds.afterwards_all (h : s.Holds .failed id executors)
    (hsteps : ReflTransGen (Beside config id) s s') : s'.Holds .failed id executors := by
  induction hsteps with
  | refl => exact h
  | tail _ hstep ih => exact ih.afterwards hstep

end SchedulerState

/-- What a task has failed for when its dispatch did. -/
def DispatchFailure.fault (f : DispatchFailure) : TaskFault := .dispatch f.phase f.location.name f.error

/-- The calls of a dispatch that failed, and of its end, have left a scheduler behind. -/
structure Undone (config : Config) (start : Start) (f : DispatchFailure) (log : List Exchange)
    (s : SchedulerState) : Prop where
  /-- At every call the task has all its executors. -/
  held : ∀ e ∈ log, ∀ a ∈ start.nodes, (a.location.name, start.task) ∈ e.before.allocated ∧
    (a.location.name, start.task) ∈ e.after.allocated
  failed : ∃ t ∈ s.fails, t.id = start.task ∧ t.status = .failed ∧ t.error = some f.fault
  unfiled : ∀ status, ∀ t ∈ s.listOf status, t.id = start.task → status = .failed
  /-- Whoever was sent an instruction is told once to abort the task. -/
  aborted : config.abortOnDispatchFailure = true → (asked (.abort start.task) log).Nodup ∧
    (asked (.abort start.task) log).Perm (asked (.phase .sendInstruction) log) ∧
    ∀ x ∈ s.allocated, x.2 ≠ start.task
  kept : config.abortOnDispatchFailure = false → (∀ e ∈ log, ∀ task, e.errand ≠ .abort task) ∧
    ∀ s', ReflTransGen (Beside config start.task) s s' →
      ∀ a ∈ start.nodes, (a.location.name, start.task) ∈ s'.allocated

section Failure

variable {config : Config} {start : Start} {s s' : SchedulerState} {f : DispatchFailure}
  {calls aborts : List Exchange}

theorem Dispatched.no_abort {r : Except DispatchFailure Unit}
    (h : Dispatched Phase.all start.nodes [] r calls) : ∀ e ∈ calls, ∀ task, e.errand ≠ .abort task := by
  intro e he task heq
  obtain ⟨p, _, a, _, hcall⟩ := h.called e he
  cases heq.symm.trans (congrArg Prod.fst hcall)

theorem undone_of_calls (hcalls : Dispatched Phase.all start.nodes [] (.error f) calls)
    (haborts : aborts.map Exchange.call =
      (if config.abortOnDispatchFailure then f.contacted else []).map (Errand.abort start.task, ·))
    (hstart : s.Holds .doing start.task (start.nodes.map (·.location)))
    (hchain : Chain s (calls ++ aborts) s')
    (hmeanwhile : ∀ e ∈ calls ++ aborts, ReflTransGen (Meanwhile config start.task) e.before e.after) :
    Undone config start f (calls ++ aborts)
      (s'.failDispatch start.task f.fault config.abortOnDispatchFailure) := by
  obtain ⟨hheld, hentries⟩ := hchain.keeps (fun e he h => h.meanwhile_all (hmeanwhile e he)) hstart
  obtain ⟨⟨t, ht, hid, hfailure⟩, honce, hallocated⟩ :=
    hheld.failDispatch f.fault config.abortOnDispatchFailure
  refine ⟨fun e he a ha => ?_, ⟨t, ht, hid, hfailure⟩, fun status u hu huid => ?_, fun hstrict => ?_,
    fun hlenient => ?_⟩
  · have hl : a.location ∈ start.nodes.map (·.location) := List.mem_map_of_mem ha
    exact ⟨(hentries e he).1.held _ hl, (hentries e he).2.held _ hl⟩
  · exact @SchedulerState.status_unique _ _ honce status .failed u t hu ht huid hid
  · rw [hstrict, if_pos rfl] at haborts
    obtain ⟨herrands, hcontacted⟩ := Exchange.errand_of_calls haborts
    have hasked : asked (.abort start.task) (calls ++ aborts) = f.contacted := by
      rw [Exchange.asked_append, Exchange.asked_of_forall_ne fun e he => hcalls.no_abort e he _,
        Exchange.asked_of_forall herrands, hcontacted, List.nil_append]
    have hsent : asked (.phase .sendInstruction) (calls ++ aborts) =
        asked (.phase .sendInstruction) calls := by
      rw [Exchange.asked_append, @Exchange.asked_of_forall_ne aborts _ fun e he => by
        rw [herrands e he]; nofun, List.append_nil]
    have hperm := hcalls.contacted f rfl
    rw [hasked, hsent]
    refine ⟨hperm.nodup_iff.mpr (Exchange.asked_nodup hcalls.once), hperm, fun x hx => ?_⟩
    rw [hallocated, if_pos hstrict] at hx
    exact of_decide_eq_true (List.mem_filter.mp hx).2
  · rw [hlenient] at haborts
    -- nobody is told, so the task still has all its executors when it is filed as failed
    obtain rfl : aborts = [] := List.map_eq_nil_iff.mp haborts
    rw [List.append_nil]
    refine ⟨hcalls.no_abort, fun s'' hsteps a ha => ?_⟩
    have hfailed : Holds .failed start.task (start.nodes.map (·.location))
        (s'.failDispatch start.task f.fault config.abortOnDispatchFailure) := by
      refine ⟨honce, ⟨t, ht, hid⟩, fun l hl => ?_⟩
      rw [hallocated, if_neg (hlenient ▸ Bool.false_ne_true)]
      exact hheld.held l hl
    exact (hfailed.afterwards_all hsteps).held _ (List.mem_map_of_mem ha)

variable {κ : Type} {c : Client (World κ)} {order : Phase → List Nat} {w : World κ}

/-- A start that fails in its dispatch: the calls of the dispatch, and then those that abort. -/
theorem World.runTask_logged (hstart : w.scheduler.startTask config w.free = (.ok (.inr start), s))
    (hnodes : (start.nodes.map (·.location)).Nodup)
    (hfailed : (c.dispatch config.dispatchMode order start.nodes (w.onScheduler s)).1 = .error f) :
    ∃ calls aborts s', runTask c.logged config order (w.withLog []) =
        ((runTask c config order w).1, (runTask c config order w).2.withLog (calls ++ aborts)) ∧
      Chain s (calls ++ aborts) s' ∧
      Dispatched Phase.all start.nodes [] (.error f) calls ∧
      aborts.map Exchange.call =
        (if config.abortOnDispatchFailure then f.contacted else []).map (Errand.abort start.task, ·) ∧
      (runTask c config order w).2.scheduler =
        s'.failDispatch start.task f.fault config.abortOnDispatchFailure := by
  obtain ⟨calls, hrun, hchain, hcalls, _⟩ :=
    dispatch_logged c config.dispatchMode order start.nodes hnodes (w.onScheduler s)
  rcases hd : c.dispatch config.dispatchMode order start.nodes (w.onScheduler s) with ⟨r, w'⟩
  rw [hd] at hfailed hrun hchain hcalls
  obtain rfl : r = .error f := hfailed
  have hlogged : (w.withLog []).scheduler.startTask config (w.withLog []).free = (.ok (.inr start), s) :=
    hstart
  have hdispatch : c.logged.dispatch config.dispatchMode order start.nodes ((w.withLog []).onScheduler s) =
      (.error f, w'.withLog calls) := hrun
  simp only [runTask, hstart, hlogged, hd, hdispatch]
  cases config.abortOnDispatchFailure with
  | false =>
    refine ⟨calls, [], w'.scheduler, ?_, ?_, hcalls, rfl, rfl⟩
    · rw [List.append_nil]
      rfl
    · rwa [List.append_nil]
  | true =>
    obtain ⟨aborts, haborts, hchain', hcalls'⟩ := abortAll_logged c start.task f.contacted w' calls
    refine ⟨calls, aborts, _, ?_, hchain.append hchain', hcalls, hcalls', rfl⟩
    simp only [if_true, haborts]
    rfl

end Failure

/-- Phases are kept and failures are cleaned up after. In either mode no call is made before all calls of the
phases in front were answered well, and none of another phase after a failure; in sequence the calls are those
of the plan, up to the first that fails; and those that were sent an instruction are known. If nobody ends the
task or gives back its executors meanwhile, each of them is told once to abort it while it still has all its
executors, and it has failed; or, if none is to be told, it has failed and keeps them from then on. -/
theorem phases_kept_and_failures_cleaned :
    (∀ (κ : Type) (c : Client (World κ)) (mode : DispatchMode) (order : Phase → List Nat)
      (nodes : List Assignment) (w : World κ), (nodes.map (·.location)).Nodup → ∃ log,
        c.logged.dispatch mode order nodes (w.withLog []) =
          ((c.dispatch mode order nodes w).1, (c.dispatch mode order nodes w).2.withLog log) ∧
        Phased Phase.all nodes log ∧
        (mode = .sequential → log.map Exchange.call <+: callPlan Phase.all nodes ∧
          (∀ e ∈ log.dropLast, e.fault = none) ∧
          ((∀ e ∈ log, e.fault = none) → log.map Exchange.call = callPlan Phase.all nodes)) ∧
        ((c.dispatch mode order nodes w).1 = .ok () ↔ ∀ e ∈ log, e.fault = none) ∧
        ∀ f, (c.dispatch mode order nodes w).1 = .error f →
          f.contacted.Nodup ∧ f.contacted.Perm (asked (.phase .sendInstruction) log)) ∧
    ∀ (κ : Type) (c : Client (World κ)) (config : Config) (order : Phase → List Nat) (w : World κ)
      (start : Start) (s : SchedulerState) (f : DispatchFailure), w.scheduler.ids.Nodup →
      w.scheduler.startTask config w.free = (.ok (.inr start), s) →
      (start.nodes.map (·.location)).Nodup →
      (c.dispatch config.dispatchMode order start.nodes (w.onScheduler s)).1 = .error f → ∃ log,
        World.runTask c.logged config order (w.withLog []) = ((World.runTask c config order w).1,
          (World.runTask c config order w).2.withLog log) ∧
        ((∀ e ∈ log, ReflTransGen (Meanwhile config start.task) e.before e.after) →
          Undone config start f log (World.runTask c config order w).2.scheduler) := by
  refine ⟨fun κ c mode order nodes w hnodes => ?_,
    fun κ c config order w start s f hunique hstart hnodes hfailed => ?_⟩
  · obtain ⟨log, hrun, _, hcalls, hcut⟩ := dispatch_logged c mode order nodes hnodes w
    refine ⟨log, hrun, hcalls.toPhased,
      fun hmode => ⟨(hcut hmode).isPrefix, (hcut hmode).fine_dropLast, (hcut hmode).whole_of_fine⟩,
      hcalls.ok_iff, fun f hf => ?_⟩
    have hperm := hcalls.contacted f hf
    exact ⟨hperm.nodup_iff.mpr (Exchange.asked_nodup hcalls.once), hperm⟩
  · obtain ⟨calls, aborts, s', hrun, hchain, hcalls, haborts, hend⟩ :=
      World.runTask_logged hstart hnodes hfailed
    refine ⟨calls ++ aborts, hrun, fun hmeanwhile => ?_⟩
    rw [hend]
    exact undone_of_calls hcalls haborts (SchedulerState.startTask_holds hunique hstart) hchain hmeanwhile

section Trio

open Plan (trioPlan trioHosts)

/-- Refuses one call. At every call of a dispatch somebody else comes for a number. -/
def Client.refusing (phase : Phase) (name : String) : Client (World Unit) where
  perform p l _ w :=
    (if p = phase ∧ l.name = name then .error .closed else .ok (), w.onScheduler w.scheduler.takeId.2)
  abort _ _ w := (.ok (), w)
  status _ w := (.error .closed, w)
  results _ _ w := (.error .closed, w)

/-- The executor "c" refuses the second phase. -/
def trioClient : Client (World Unit) := .refusing .setupWriters "c"

def trioTask : Task :=
  { id := 1, catalog := "c", schema := "s", plan := some trioPlan, executorNumber := 2 }

def trioWorld : World Unit where
  scheduler := { todos := [trioTask], nextId := 1 }
  topology := .ofLocations trioHosts
  outside := ()

def trioStarted : Except SchedulerError (RunOutcome ⊕ Start) × SchedulerState :=
  trioWorld.scheduler.startTask {} trioWorld.free

def trioStart : Start := (trioStarted.1.toOption.bind Sum.getRight?).get (by decide +kernel)

theorem trio_started {config : Config} (hmin : config.minParallelism = 1)
    (hmax : config.maxParallelism = 1000) :
    trioWorld.scheduler.startTask config trioWorld.free = (.ok (.inr trioStart), trioStarted.2) := by
  have hsame : trioWorld.scheduler.startTask config trioWorld.free = trioStarted := by
    rw [trioStarted, SchedulerState.startTask, SchedulerState.startTask, hmin, hmax]
  have hstart : trioStarted.1.toOption.bind Sum.getRight? = some trioStart := (Option.some_get _).symm
  rw [hsame]
  generalize trioStarted = x at hstart
  rcases x with ⟨_ | _ | start, s⟩
  · cases hstart
  · cases hstart
  · cases hstart
    rfl

theorem trio_beside {config : Config} {e : Exchange} (h : e.after = e.before ∨
    e.before.nextId + 1 ≠ 0 ∧ e.after = e.before.takeId.2 ∧ ∃ t ∈ e.after.doings, t.id = trioStart.task) :
    ReflTransGen (Meanwhile config trioStart.task) e.before e.after := by
  rcases h with heq | ⟨hnext, heq, hruns⟩
  · rw [heq]
  · refine .single ⟨?_, hruns⟩
    rw [heq]
    refine @Beside.locked config _ [] none _ _ _ List.nodup_nil (.issue "" "c" "s" 0 0 hnext) nofun
      fun hkept => ?_
    have hsame : e.before.nextId + 1 = e.before.nextId := congrArg SchedulerState.nextId hkept
    simp at hsame

def trioFailure : DispatchFailure where
  phase := .setupWriters
  location := ⟨"c", "host", 1⟩
  error := .closed
  contacted := trioStart.nodes.map (·.location)

def lenient : Config := { dispatchMode := .parallel, abortOnDispatchFailure := false }

/-- One of four executors refuses the second phase. All four are told to abort and are given back; or, where
failures are not cleaned up after, they stay with the task. -/
theorem phases_kept_and_failures_cleaned_trio :
    (∃ log, trioClient.logged.dispatch .sequential (fun _ => []) trioStart.nodes
        (trioWorld.withLog []) = (.error trioFailure,
          (trioClient.dispatch .sequential (fun _ => []) trioStart.nodes
            trioWorld).2.withLog log) ∧
      Phased Phase.all trioStart.nodes log ∧ log.map Exchange.call <+: callPlan Phase.all trioStart.nodes ∧
      trioFailure.contacted.Perm (asked (.phase .sendInstruction) log)) ∧
    (∃ log, World.runTask trioClient.logged {} (fun _ => []) (trioWorld.withLog []) =
        ((World.runTask trioClient {} (fun _ => []) trioWorld).1,
          (World.runTask trioClient {} (fun _ => []) trioWorld).2.withLog log) ∧
      Undone {} trioStart trioFailure log
        (World.runTask trioClient {} (fun _ => []) trioWorld).2.scheduler) ∧
    ∀ s', ReflTransGen (Beside lenient trioStart.task)
        (World.runTask trioClient lenient (fun _ => [2, 0]) trioWorld).2.scheduler s' →
      ∀ a ∈ trioStart.nodes, (a.location.name, trioStart.task) ∈ s'.allocated := by
  obtain ⟨hdispatch, htask⟩ := phases_kept_and_failures_cleaned
  have hnodes : (trioStart.nodes.map (·.location)).Nodup := by decide +kernel
  have hlogOf : ∀ {x y : Except SchedulerError RunOutcome} {v : World (Unit × List Exchange)}
      {w : World Unit} {log : List Exchange}, (x, v) = (y, w.withLog log) → v.outside.2 = log := by
    rintro _ _ _ _ _ ⟨⟩
    rfl
  refine ⟨?_, ?_, ?_⟩
  · obtain ⟨log, hrun, hphased, hsequential, _, hcontacted⟩ :=
      hdispatch Unit trioClient .sequential (fun _ => []) trioStart.nodes trioWorld hnodes
    have hfailed : (trioClient.dispatch .sequential (fun _ => []) trioStart.nodes
        trioWorld).1 = .error trioFailure := by decide +kernel
    rw [hfailed] at hrun
    exact ⟨log, hrun, hphased, (hsequential rfl).1, (hcontacted trioFailure hfailed).2⟩
  · obtain ⟨log, hrun, hclean⟩ := htask Unit trioClient {} (fun _ => []) trioWorld trioStart
      trioStarted.2 trioFailure (by decide) (trio_started rfl rfl) hnodes (by decide +kernel)
    obtain rfl := hlogOf hrun
    have hbeside : ∀ e ∈ (World.runTask trioClient.logged {} (fun _ => [])
        (trioWorld.withLog [])).2.outside.2, e.after = e.before ∨ e.before.nextId + 1 ≠ 0 ∧
          e.after = e.before.takeId.2 ∧ ∃ t ∈ e.after.doings, t.id = trioStart.task := by
      decide +kernel
    exact ⟨_, hrun, hclean fun e he => trio_beside (hbeside e he)⟩
  · obtain ⟨log, hrun, hclean⟩ := htask Unit trioClient lenient (fun _ => [2, 0]) trioWorld
      trioStart trioStarted.2 trioFailure (by decide) (trio_started rfl rfl) hnodes (by decide +kernel)
    obtain rfl := hlogOf hrun
    have hbeside : ∀ e ∈ (World.runTask trioClient.logged lenient (fun _ => [2, 0])
        (trioWorld.withLog [])).2.outside.2, e.after = e.before ∨ e.before.nextId + 1 ≠ 0 ∧
          e.after = e.before.takeId.2 ∧ ∃ t ∈ e.after.doings, t.id = trioStart.task := by
      decide +kernel
    exact ((hclean fun e he => trio_beside (hbeside e he)).kept rfl).2

end Trio

end QueryCluster
