import QueryCluster.Proofs.Scheduler.Invariant

/-!
# A consistent scheduler in every interleaving

Whatever calls are under way and in whatever order they go through their sections, a task whose
admission has returned stands in one list, the one its status names; running tasks hold their
executors and share none; and what else is held belongs to failed tasks that keep theirs.
-/
namespace QueryCluster

open SchedulerState (Filed Leased)

/-- A task that waits to be filed is as it was made. -/
def Underway.Fresh : Underway → Prop
  | admission task => task.status = .todo
  | _ => True

namespace Locked

variable {config : Config} {topology : Topology} {before after : Option Underway}
  {s s' : SchedulerState} {waiting : List TaskId}

/-- A section files the task that waited for it and no other. -/
theorem ids_perm (h : Locked config topology before s after s') :
    s'.ids.Perm ((before.bind Underway.admits).toList ++ s.ids) := by
  cases h with
  | issue | release | poll | pass | polled | locate | store | missed => exact .refl _
  | enqueue task compiled => exact SchedulerState.ids_enqueue s task compiled
  | start => exact SchedulerState.ids_attempt (s.startTask_attempt config _)
  | dispatched id => exact .of_eq (SchedulerState.ids_markDispatched s id)
  | undispatched task fault =>
    rcases (s.failDispatch_cases task fault config.abortOnDispatchFailure).2 with ⟨he, _⟩ | ⟨_, heq⟩
    · exact SchedulerState.ids_ended he
    · rw [heq]
      exact .refl _
  | finish h => exact SchedulerState.ids_ended (SchedulerState.finish_ok h).1
  | close h => exact SchedulerState.ids_ended (SchedulerState.finish_ok h).1

theorem mem_ids (h : Locked config topology before s after s') :
    ∀ id ∈ (before.bind Underway.admits).toList ++ s.ids, id ∈ s'.ids :=
  fun _ hid => h.ids_perm.mem_iff.mpr hid

theorem filed (h : Locked config topology before s after s')
    (hfresh : ∀ c ∈ before, c.Fresh)
    (hfiled : Filed ((before.bind Underway.admits).toList ++ waiting) s) :
    Filed ((after.bind Underway.admits).toList ++ waiting) s' := by
  cases h with
  | issue _ _ _ _ _ hnext => exact hfiled.issue hnext
  | enqueue task compiled => exact Filed.enqueue hfiled (hfresh _ rfl) compiled
  | start =>
    have hattempt := s.startTask_attempt config (s.free topology)
    have hnone : ((Underway.ofStart (s.startTask config (s.free topology)).1).bind
        Underway.admits).toList = [] := by
      rcases s.startTask config (s.free topology) with ⟨_ | _ | _, _⟩ <;> rfl
    rw [hnone]
    exact hfiled.attempt hattempt
  | dispatched id => exact hfiled.markDispatched id
  | undispatched task fault => exact hfiled.failDispatch task fault config.abortOnDispatchFailure
  | finish h => exact hfiled.ended (SchedulerState.finish_ok h).1
  | close h => exact hfiled.ended (SchedulerState.finish_ok h).1
  | release | poll | pass | polled | locate | store | missed =>
    exact ⟨hfiled.unique, hfiled.issued, hfiled.status⟩

theorem leased (h : Locked config topology before s after s') (hunique : s.ids.Nodup)
    (hleased : Leased config.abortOnDispatchFailure s) :
    Leased config.abortOnDispatchFailure s' := by
  cases h with
  | issue | poll | pass | polled | locate | store | missed =>
    exact hleased.of_same rfl (fun _ ht => ht) rfl
  | enqueue task compiled =>
    cases compiled with
    | ok c => exact hleased.of_same rfl (fun _ ht => ht) rfl
    | error e => exact hleased.of_same rfl (fun _ ht => List.mem_append_left _ ht) rfl
  | start => exact hleased.attempt (s.startTask_attempt config (s.free topology))
  | dispatched id => exact hleased.markDispatched id
  | undispatched id fault => exact hleased.failDispatch hunique id fault
  | finish h | close h =>
    obtain ⟨he, hallocated⟩ := SchedulerState.finish_ok h
    exact hleased.ended hunique he hallocated
  | release id h => exact hleased.release (fun t => ⟨fun ht => ⟨ht, h t ht⟩, And.left⟩) (fun _ ht => ht) rfl

theorem fresh (h : Locked config topology before s after s') : ∀ c ∈ after, c.Fresh := by
  cases h with
  | issue => exact fun c hc => by cases hc; rfl
  | start =>
    intro c hc
    obtain ⟨id, rfl⟩ := Underway.mem_ofStart hc
    trivial
  | poll | pass | close | locate => exact fun c hc => by cases hc; trivial
  | enqueue | dispatched | undispatched | finish | release | polled | store | missed =>
    exact fun c hc => by cases hc

end Locked

namespace Shared

/-- The tasks that calls under way will file. -/
def waiting (x : Shared) : List TaskId := x.calls.filterMap Underway.admits

structure Sound (config : Config) (x : Shared) : Prop where
  filed : Filed x.waiting x.scheduler
  leased : Leased config.abortOnDispatchFailure x.scheduler
  fresh : ∀ c ∈ x.calls, c.Fresh
  names : (x.topology.map (·.location.name)).Nodup
  admitted : ∀ id ∈ x.admitted, id ∈ x.scheduler.ids

/-- Nothing has been asked of the scheduler yet. -/
def start (topology : Topology) : Shared := { topology }

theorem filterMap_toList {α β : Type} (f : α → Option β) (o : Option α) :
    o.toList.filterMap f = (o.bind f).toList := by
  cases o with
  | none => rfl
  | some a => cases h : f a <;> simp [h]

/-- What is read off one of the calls may stand in front. -/
theorem calls_perm {α : Type} (f : Underway → Option α) (front back : List Underway)
    (call : Option Underway) : ((front ++ call.toList ++ back).filterMap f).Perm
      ((call.bind f).toList ++ (front ++ back).filterMap f) := by
  simp only [List.filterMap_append, filterMap_toList, List.append_assoc]
  exact List.perm_append_comm_assoc ..

theorem forall_calls {P : Underway → Prop} {front back : List Underway} {call : Option Underway} :
    (∀ c ∈ front ++ call.toList ++ back, P c) ↔ (∀ c ∈ call, P c) ∧ ∀ c ∈ front ++ back, P c := by
  simp only [List.mem_append, Option.mem_toList]
  exact ⟨fun h => ⟨fun c hc => h c (.inl (.inr hc)), fun c hc => h c (hc.imp_left .inl)⟩,
    fun ⟨hcall, hothers⟩ c hc => hc.elim (fun hc => hc.elim (fun hc => hothers c (.inl hc)) (hcall c))
      fun hc => hothers c (.inr hc)⟩

theorem sound_start {config : Config} {topology : Topology}
    (h : (topology.map (·.location.name)).Nodup) : (start topology).Sound config where
  filed := .start
  leased := ⟨List.nodup_nil, List.forall_mem_nil _, List.forall_mem_nil _⟩
  fresh := List.forall_mem_nil _
  names := h
  admitted := List.forall_mem_nil _

theorem Sound.step {config : Config} {x x' : Shared} (hx : x.Sound config)
    (h : Step config x x') : x'.Sound config := by
  cases h with
  | topology calls admitted h => exact ⟨hx.filed, hx.leased, hx.fresh, h, hx.admitted⟩
  | @locked s s' t before after front back admitted h =>
    have hfiled : Filed _ s := hx.filed.of_perm ((calls_perm _ front back before).symm.append_left _) rfl
      hx.filed.status
    obtain ⟨hbefore, hothers⟩ := forall_calls.mp hx.fresh
    have hunique := (List.nodup_append.mp hx.filed.unique).1
    refine ⟨?_, h.leased hunique hx.leased, forall_calls.mpr ⟨h.fresh, hothers⟩, hx.names,
      fun id hid => ?_⟩
    · have hnew := h.filed hbefore hfiled
      exact hnew.of_perm ((calls_perm _ front back after).append_left _) rfl hnew.status
    · refine h.mem_ids id ?_
      exact (List.mem_append.mp hid).elim (List.mem_append_left _)
        fun hid => List.mem_append_right _ (hx.admitted id hid)

theorem Sound.steps {config : Config} {x x' : Shared} (hx : x.Sound config)
    (h : Steps config x x') : x'.Sound config := by
  induction h with
  | refl => exact hx
  | tail _ hstep ih => exact ih.step hstep

/-- What can be said of the scheduler whenever its lock is free. -/
structure Consistent (config : Config) (x : Shared) : Prop where
  once : x.scheduler.ids.Nodup
  status : ∀ status, ∀ t ∈ x.scheduler.listOf status, t.status = status
  admitted : ∀ id ∈ x.admitted, ∃! status, id ∈ (x.scheduler.listOf status).map (·.id)
  held : ∀ t ∈ x.scheduler.doings, ∀ l ∈ t.executors,
    x.scheduler.allocated.lookup l.name = some t.id
  unshared : ∀ t ∈ x.scheduler.doings, ∀ u ∈ x.scheduler.doings, ∀ l ∈ t.executors,
    ∀ m ∈ u.executors, l.name = m.name → t = u
  /-- No executor stays behind if failed tasks give theirs back. -/
  strict : config.abortOnDispatchFailure = true → ∀ e ∈ x.scheduler.allocated,
    ∃ t ∈ x.scheduler.doings, t.id = e.2 ∧ e.1 ∈ t.executors.map (·.name)
  lenient : config.abortOnDispatchFailure = false → ∀ e ∈ x.scheduler.allocated,
    e.2 ∈ x.scheduler.doings.map (·.id) ∨ e.2 ∈ x.scheduler.fails.map (·.id)

theorem Sound.consistent {config : Config} {x : Shared} (hx : x.Sound config) :
    x.Consistent config := by
  have hunique := (List.nodup_append.mp hx.filed.unique).1
  have hlookup : ∀ t ∈ x.scheduler.doings, ∀ l ∈ t.executors,
      x.scheduler.allocated.lookup l.name = some t.id := fun t ht l hl =>
    (lookup_eq_some_iff_mem hx.leased.names).mpr (hx.leased.held t ht l hl)
  refine ⟨hunique, hx.filed.status, fun id hid => ?_, hlookup, ?_, ?_, ?_⟩
  · obtain ⟨t, ht, rfl⟩ := List.mem_map.mp (hx.admitted id hid)
    obtain ⟨status, ht⟩ := SchedulerState.mem_tasks.mp ht
    refine ⟨status, List.mem_map_of_mem ht, fun other hother => ?_⟩
    obtain ⟨u, hu, hsame⟩ := List.mem_map.mp hother
    obtain rfl := SchedulerState.eq_of_id hunique hu ht hsame
    exact (hx.filed.status other u hu).symm.trans (hx.filed.status status u ht)
  · intro t ht u hu l hl m hm hname
    have hheld := hlookup t ht l hl
    rw [hname, hlookup u hu m hm] at hheld
    exact SchedulerState.eq_of_id (i := .doing) (j := .doing) hunique ht hu
      (Option.some.inj hheld).symm
  · intro hstrict e he
    rcases hx.leased.holders e he with h | ⟨hlenient, _⟩
    · exact h
    · rw [hstrict] at hlenient
      cases hlenient
  · intro _ e he
    rcases hx.leased.holders e he with ⟨t, ht, hid, _⟩ | ⟨_, t, ht, hid⟩
    · exact .inl (List.mem_map.mpr ⟨t, ht, hid⟩)
    · exact .inr (List.mem_map.mpr ⟨t, ht, hid⟩)

/-- No order of the sections of any calls makes the scheduler inconsistent. -/
theorem consistent_of_steps {config : Config} {topology : Topology} {x : Shared}
    (hnames : (topology.map (·.location.name)).Nodup) (h : Steps config (start topology) x) :
    x.Consistent config :=
  ((sound_start hnames).steps h).consistent

section Lone

/-- A single executor. -/
def loneTopology : Topology := [{ location := ⟨"lone", "host", 1⟩ }]

def lonePlan : Plan where
  stages := []
  scan :=
    { catalog := "c", schema := "s", table := "t", columns := { columns := [⟨"n", .int64⟩] },
      partitions := 1, filters := [] }

def loneTask : Task := { id := 1, catalog := "c", schema := "s" }

def loneQueue : SchedulerState := ((SchedulerState.takeId {}).2.enqueue loneTask (.ok (lonePlan, 1))).2

def loneRunning : SchedulerState := (loneQueue.startTask {} (loneQueue.free loneTopology)).2

/-- A task that takes the only executor there is. -/
theorem consistent_of_steps_lone : ∃ x, Steps {} (start loneTopology) x ∧
    x.scheduler.allocated = [("lone", 1)] ∧ x.Consistent {} := by
  have hissue : Step {} (start loneTopology)
      ⟨(SchedulerState.takeId {}).2, loneTopology, [.admission loneTask], []⟩ :=
    .locked [] [] [] (.issue "" "c" "s" 0 0 (by decide))
  have henqueue : Step {} ⟨(SchedulerState.takeId {}).2, loneTopology, [.admission loneTask], []⟩
      ⟨loneQueue, loneTopology, [], [1]⟩ :=
    .locked [] [] [] (.enqueue loneTask (.ok (lonePlan, 1)))
  have hstart := Step.locked [] [] [1] (@Locked.start {} loneTopology loneQueue)
  have hsteps := ((Relation.ReflTransGen.single hissue).tail henqueue).tail hstart
  have hallocated : loneRunning.allocated = [("lone", 1)] := by decide +kernel
  exact ⟨_, hsteps, hallocated, consistent_of_steps (by decide) hsteps⟩

end Lone

end Shared
end QueryCluster
