import QueryCluster.Proofs.Scheduler.Results

/-!
# Which tasks a poll looks at

A poll looks at the running tasks that are marked as dispatched. A task leaves the queue once, so only one call
brings it onto its executors, and nothing but the end of that call marks it. Hence the marked tasks are those
that run and are not being dispatched.
-/
namespace QueryCluster

open SchedulerState (Filed)

/-- The task that a call brings onto its executors. -/
def Underway.dispatches : Underway → Option TaskId
  | dispatch task => some task
  | _ => none

theorem Underway.mem_dispatches {calls : List Underway} {id : TaskId} :
    id ∈ calls.filterMap dispatches ↔ .dispatch id ∈ calls := by
  rw [List.mem_filterMap]
  refine ⟨fun ⟨c, hc, heq⟩ => ?_, fun h => ⟨_, h, rfl⟩⟩
  cases c <;> cases heq
  exact hc

/-- A query that is compiled has not been dispatched. -/
def Underway.Unmarked : Underway → Prop
  | admission task => task.dispatched = false
  | _ => True

namespace SchedulerState

/-- Of the running tasks those are marked that are not being dispatched. -/
structure Marked (busy : List TaskId) (s : SchedulerState) : Prop where
  once : busy.Nodup
  begun : ∀ id ∈ busy, ∃ t ∈ s.begun, t.id = id
  queued : ∀ t ∈ s.todos, t.dispatched = false
  marks : ∀ t ∈ s.doings, t.dispatched = true ↔ t.id ∉ busy

variable {s s' : SchedulerState} {busy : List TaskId} {id : TaskId}

theorem Marked.fewer (h : s.Marked busy) (ha : s.Advances s') (htodos : s'.todos ⊆ s.todos)
    (hdoings : s'.doings ⊆ s.doings) : s'.Marked busy where
  once := h.once
  begun id hid := by
    obtain ⟨t, ht, rfl⟩ := h.begun id hid
    obtain ⟨u, hu, heq, _⟩ := ha.begun t ht
    exact ⟨u, hu, heq⟩
  queued t ht := h.queued t (htodos ht)
  marks t ht := h.marks t (hdoings ht)

theorem Marked.of_perm {busy' : List TaskId} (h : s.Marked busy) (hperm : busy.Perm busy') :
    s.Marked busy' where
  once := hperm.nodup_iff.mp h.once
  begun id hid := h.begun id (hperm.mem_iff.mpr hid)
  queued := h.queued
  marks t ht := (h.marks t ht).trans (not_congr hperm.mem_iff)

theorem Marked.enqueue {task : Task} (h : s.Marked busy) (htask : task.dispatched = false)
    (compiled : Except PlanError (Plan × Nat)) : (s.enqueue task compiled).2.Marked busy := by
  have hfewer := fun htodos hdoings => h.fewer (s.advances_enqueue task compiled) htodos hdoings
  cases compiled with
  | error e => exact hfewer (List.Subset.refl _) (List.Subset.refl _)
  | ok c =>
    refine ⟨h.once, h.begun, fun t ht => ?_, h.marks⟩
    rcases List.mem_cons.mp ((TaskList.insert_perm _ _).mem_iff.mp ht) with rfl | ht
    · exact htask
    · exact h.queued t ht

/-- The call that dispatched a task returns, and the task is no longer running. -/
theorem Marked.undispatched (h : s.Marked (id :: busy)) (hunique : s.ids.Nodup) (fault : TaskFault)
    (free : Bool) : (s.failDispatch id fault free).Marked busy := by
  have hlists : (s.failDispatch id fault free).todos = s.todos ∧
      ∀ t ∈ (s.failDispatch id fault free).doings, t ∈ s.doings ∧ t.id ≠ id := by
    rcases (s.failDispatch_cases id fault free).2 with ⟨he, _⟩ | ⟨hnone, heq⟩
    · exact ⟨he.todos, fun t ht => (he.mem_doings hunique t).mp ht⟩
    · rw [heq]
      exact ⟨rfl, fun t ht => ⟨ht, hnone t ht⟩⟩
  obtain ⟨htodos, hdoings⟩ := hlists
  have hfewer := h.fewer (s.advances_failDispatch id fault free) (htodos ▸ List.Subset.refl _)
    fun t ht => (hdoings t ht).1
  refine ⟨(List.nodup_cons.mp h.once).2, fun other hother => ?_, hfewer.queued, fun t ht => ?_⟩
  · exact hfewer.begun other (List.mem_cons_of_mem _ hother)
  · rw [hfewer.marks t ht, List.mem_cons, not_or]
    exact and_iff_right (hdoings t ht).2

theorem Marked.dispatched (h : s.Marked (id :: busy)) (hunique : s.ids.Nodup) :
    (s.markDispatched id).Marked busy := by
  obtain ⟨hnot, honce⟩ := List.nodup_cons.mp h.once
  refine ⟨honce, fun other hother => ?_, h.queued, fun t ht => ?_⟩
  · obtain ⟨t, ht, rfl⟩ := h.begun other (List.mem_cons_of_mem _ hother)
    obtain ⟨u, hu, heq, _⟩ := (s.advances_markDispatched id).begun t ht
    exact ⟨u, hu, heq⟩
  · rcases TaskList.mem_update (nodup_doings hunique) ht with ⟨ht, hne⟩ | ⟨u, _, hid, rfl⟩
    · rw [h.marks t ht, List.mem_cons, not_or]
      exact and_iff_right hne
    · exact iff_of_true rfl fun hmem => hnot (hid ▸ hmem)

theorem ids_eq (s : SchedulerState) : s.ids = s.todos.map (·.id) ++ s.begun.map (·.id) := by
  simp only [ids, tasks, begun, List.map_append, List.append_assoc]

/-- No task that left the queue has the number of one that is queued. -/
theorem ne_of_begun (hunique : s.ids.Nodup) {queued t : Task} (hqueued : queued ∈ s.todos)
    (ht : t ∈ s.begun) : t.id ≠ queued.id := by
  intro heq
  rw [ids_eq] at hunique
  exact List.disjoint_of_nodup_append hunique (List.mem_map_of_mem hqueued)
    (heq ▸ List.mem_map_of_mem ht)

theorem Marked.start (h : s.Marked busy) (hunique : s.ids.Nodup) (config : Config) (free : List Location) :
    (s.startTask config free).2.Marked
      (((Underway.ofStart (s.startTask config free).1).bind Underway.dispatches).toList ++ busy) := by
  have ha := s.advances_startTask config free
  have hattempt := s.startTask_attempt config free
  have hdoings := s.startTask_doings config free
  generalize Underway.ofStart (s.startTask config free).1 = call at hattempt ⊢
  generalize (s.startTask config free).2 = s' at ha hattempt hdoings ⊢
  cases hattempt with
  | idle => exact h
  | refused htodos =>
    exact h.fewer ha (htodos ▸ List.subset_cons_self ..) (List.Subset.refl _)
  | @started task started todos _ _ _ htodos _ hid =>
    have hmark : started.dispatched = false := by
      rcases hdoings with hsame | ⟨_, _, u, hfirst, _, hpush, _, _, hmark⟩
      · exact absurd (congrArg List.length hsame) (by simp [TaskList.push])
      · rw [htodos] at hfirst
        cases hfirst
        obtain rfl := List.singleton_inj.mp (List.append_cancel_left hpush)
        exact hmark.trans (h.queued task (htodos ▸ List.mem_cons_self))
    have hnew : ∀ t ∈ s.begun, t.id ≠ task.id := fun t ht =>
      ne_of_begun hunique (htodos ▸ List.mem_cons_self) ht
    -- it was queued, so no call dispatches it
    have hfresh : task.id ∉ busy := fun hmem => by
      obtain ⟨t, ht, heq⟩ := h.begun _ hmem
      exact hnew t ht heq
    have hstarted : started ∈ s.doings ++ [started] := List.mem_append_right _ (List.mem_singleton_self _)
    refine ⟨List.nodup_cons.mpr ⟨hfresh, h.once⟩, fun other hother => ?_, fun t ht => ?_, fun t ht => ?_⟩
    · rcases List.mem_cons.mp hother with rfl | hother
      · exact ⟨started, mem_begun.mpr (.inl hstarted), hid⟩
      · obtain ⟨t, ht, rfl⟩ := h.begun other hother
        obtain ⟨u, hu, heq, _⟩ := ha.begun t ht
        exact ⟨u, hu, heq⟩
    · exact h.queued t (htodos ▸ List.mem_cons_of_mem _ ht)
    · rcases List.mem_append.mp ht with ht | ht
      · have hne := hnew t (mem_begun.mpr (.inl ht))
        rw [h.marks t ht]
        exact not_congr (List.mem_cons.trans (or_iff_right hne)).symm
      · obtain rfl := List.mem_singleton.mp ht
        rw [hmark]
        exact iff_of_false Bool.false_ne_true (not_not.mpr (hid ▸ List.mem_cons_self))

end SchedulerState

section Entries

variable {config : Config} {topology : Topology} {before after : Option Underway}
  {s s' : SchedulerState} {busy : List TaskId}

theorem Locked.unmarked (h : Locked config topology before s after s') : ∀ c ∈ after, c.Unmarked := by
  cases h with
  | issue => exact fun c hc => by cases hc; rfl
  | start =>
    intro c hc
    obtain ⟨id, rfl⟩ := Underway.mem_ofStart hc
    trivial
  | poll | close | pass | locate => exact fun c hc => by cases hc; trivial
  | enqueue | dispatched | undispatched | finish | release | polled | store | missed =>
    exact fun c hc => by cases hc

theorem Locked.marked (h : Locked config topology before s after s') (hunique : s.ids.Nodup)
    (hunmarked : ∀ c ∈ before, c.Unmarked)
    (hmarked : s.Marked ((before.bind Underway.dispatches).toList ++ busy)) :
    s'.Marked ((after.bind Underway.dispatches).toList ++ busy) := by
  have ha := h.advances
  cases h with
  | issue | release | poll | pass | polled | locate | store | missed =>
    exact hmarked.fewer ha (List.Subset.refl _) (List.Subset.refl _)
  | enqueue task compiled => exact SchedulerState.Marked.enqueue hmarked (hunmarked _ rfl) compiled
  | start => exact SchedulerState.Marked.start hmarked hunique config _
  | dispatched => exact SchedulerState.Marked.dispatched hmarked hunique
  | undispatched id fault => exact SchedulerState.Marked.undispatched hmarked hunique fault _
  | finish h | close h =>
    have hended := (SchedulerState.finish_ok h).1
    refine hmarked.fewer ha (hended.todos ▸ List.Subset.refl _) fun t ht => ?_
    exact ((hended.mem_doings hunique t).mp ht).1

end Entries

namespace Ledger

variable {config : Config} {x y : Ledger}

/-- The marks fit the calls under way. -/
structure Marked (x : Ledger) : Prop where
  marked : x.scheduler.Marked (x.calls.filterMap Underway.dispatches)
  unmarked : ∀ c ∈ x.calls, c.Unmarked

theorem marked_start (topology : Topology) : (start topology).Marked where
  marked := ⟨List.nodup_nil, List.forall_mem_nil _, List.forall_mem_nil _, List.forall_mem_nil _⟩
  unmarked := List.forall_mem_nil _

theorem Marked.step (hm : x.Marked) (hx : x.Sound) (h : Step config x y) : y.Marked := by
  cases h with
  | topology => exact ⟨hm.marked, hm.unmarked⟩
  | @entry s s' t before after g g' front back h =>
    obtain ⟨hbefore, hothers⟩ := Shared.forall_calls.mp hm.unmarked
    have hbusy := hm.marked.of_perm (Shared.calls_perm _ front back before)
    rcases h.locked_or with hlocked | ⟨rfl, rfl, hsame⟩
    · have hunique := (List.nodup_append.mp hx.filed.unique).1
      exact ⟨(hlocked.marked hunique hbefore hbusy).of_perm (Shared.calls_perm _ front back after).symm,
        Shared.forall_calls.mpr ⟨hlocked.unmarked, hothers⟩⟩
    · rw [hsame]
      exact ⟨⟨hm.marked.once, hm.marked.begun, hm.marked.queued, hm.marked.marks⟩, hm.unmarked⟩

theorem Marked.steps (hm : x.Marked) (hx : x.Sound) (h : Steps config x y) : y.Marked := by
  induction h with
  | refl => exact hm
  | tail hsteps hstep ih => exact ih.step (hx.steps hsteps) hstep

/-- A poll looks at those running tasks whose dispatch has come to an end. -/
theorem mem_running {topology : Topology} (h : Steps config (start topology) x) {id : TaskId} :
    id ∈ x.scheduler.running.map (·.task) ↔
      id ∈ x.scheduler.doings.map (·.id) ∧ .dispatch id ∉ x.calls := by
  have hmarked := ((marked_start topology).steps (sound_start topology) h).marked
  simp only [SchedulerState.running, List.map_map, List.mem_map, List.mem_filter, Function.comp_apply]
  constructor
  · rintro ⟨t, ⟨ht, hdispatched⟩, rfl⟩
    refine ⟨⟨t, ht, rfl⟩, fun hmem => ?_⟩
    exact (hmarked.marks t ht).mp hdispatched (Underway.mem_dispatches.mpr hmem)
  · rintro ⟨⟨t, ht, rfl⟩, hnot⟩
    exact ⟨t, ⟨ht, (hmarked.marks t ht).mpr (mt Underway.mem_dispatches.mp hnot)⟩, rfl⟩

end Ledger

end QueryCluster
