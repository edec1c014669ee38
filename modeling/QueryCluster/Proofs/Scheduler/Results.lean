import QueryCluster.Proofs.Scheduler.Consistency
import QueryCluster.Proofs.Scheduler.Ledger

/-!
# Finished tasks and their rows

Tasks are filed behind those that are done or have failed, and nothing takes one of them out or changes it. A
task keeps its root from the moment it is started. So whoever waited for rows without the lock finds the
task that it asked for: a poll the running one, of which no other has that number, and who asked for the
rows of a task that was done finds it where it was. Rows are stored and given out for tasks that are done,
and they are what the executor of the root has answered for them.
-/
namespace QueryCluster

open SchedulerState (Filed)

namespace SchedulerState

/-- The tasks that have left the queue. -/
def begun (s : SchedulerState) : TaskList := s.doings ++ s.dones ++ s.fails

/-- Nothing that ended is changed, and tasks that have left the queue keep their roots. -/
structure Advances (s s' : SchedulerState) : Prop where
  dones : s.dones <+: s'.dones
  fails : s.fails <+: s'.fails
  begun : ∀ t ∈ s.begun, ∃ u ∈ s'.begun, u.id = t.id ∧ u.root = t.root
  roots : (∀ t ∈ s.doings, t.root.isSome) → ∀ t ∈ s'.doings, t.root.isSome

variable {s s' s'' : SchedulerState} {id : TaskId}

theorem mem_begun {t : Task} : t ∈ s.begun ↔ t ∈ s.doings ∨ t ∈ s.dones ∨ t ∈ s.fails := by
  simp only [begun, List.mem_append, or_assoc]

theorem mem_tasks_of_begun {t : Task} (h : t ∈ s.begun) : t ∈ s.tasks := by
  simp only [begun, tasks, List.append_assoc] at h ⊢
  exact List.mem_append_right _ h

theorem begun_eq_of_id (hunique : s.ids.Nodup) {t u : Task} (ht : t ∈ s.begun) (hu : u ∈ s.begun)
    (h : t.id = u.id) : t = u :=
  List.inj_on_of_nodup_map hunique (mem_tasks_of_begun ht) (mem_tasks_of_begun hu) h

theorem Advances.trans (h : s.Advances s') (h' : s'.Advances s'') : s.Advances s'' where
  dones := h.dones.trans h'.dones
  fails := h.fails.trans h'.fails
  begun t ht := by
    obtain ⟨u, hu, hid, hroot⟩ := h.begun t ht
    obtain ⟨v, hv, hid', hroot'⟩ := h'.begun u hu
    exact ⟨v, hv, hid'.trans hid, hroot'.trans hroot⟩
  roots hroots := h'.roots (h.roots hroots)

/-! ## Sections -/

/-- More stands in some lists, and what was there still does. -/
theorem Advances.of_longer (hdoings : s'.doings = s.doings) (hdones : s.dones <+: s'.dones)
    (hfails : s.fails <+: s'.fails) : s.Advances s' where
  dones := hdones
  fails := hfails
  begun t ht := by
    refine ⟨t, ?_, rfl, rfl⟩
    rw [mem_begun] at ht ⊢
    rw [hdoings]
    exact ht.imp_right (Or.imp (hdones.subset ·) (hfails.subset ·))
  roots h := hdoings ▸ h

theorem Advances.of_lists (hdoings : s'.doings = s.doings) (hdones : s'.dones = s.dones)
    (hfails : s'.fails = s.fails) : s.Advances s' :=
  .of_longer hdoings (hdones ▸ List.prefix_rfl) (hfails ▸ List.prefix_rfl)

theorem Advances.refl (s : SchedulerState) : s.Advances s := .of_lists rfl rfl rfl

/-- A running task is filed as one that ended. -/
theorem Advances.of_filed {t u : Task} (hdoings : s.doings.Perm (t :: s'.doings)) (hid : u.id = t.id)
    (hroot : u.root = t.root) (hfiled : s'.dones = s.dones ++ [u] ∧ s'.fails = s.fails ∨
      s'.dones = s.dones ∧ s'.fails = s.fails ++ [u]) : s.Advances s' := by
  have hdones : s.dones <+: s'.dones := by
    rcases hfiled with ⟨h, _⟩ | ⟨h, _⟩
    · exact h ▸ List.prefix_append ..
    · exact h ▸ List.prefix_rfl
  have hfails : s.fails <+: s'.fails := by
    rcases hfiled with ⟨_, h⟩ | ⟨_, h⟩
    · exact h ▸ List.prefix_rfl
    · exact h ▸ List.prefix_append ..
  have hu : u ∈ s'.begun := by
    refine mem_begun.mpr (.inr ?_)
    rcases hfiled with ⟨h, _⟩ | ⟨_, h⟩
    · exact .inl (h ▸ List.mem_append_right _ (List.mem_singleton_self u))
    · exact .inr (h ▸ List.mem_append_right _ (List.mem_singleton_self u))
  refine ⟨hdones, hfails, fun v hv => ?_, fun hroots v hv => ?_⟩
  · rcases mem_begun.mp hv with hv | hv | hv
    · rcases List.mem_cons.mp (hdoings.mem_iff.mp hv) with rfl | hv
      · exact ⟨u, hu, hid, hroot⟩
      · exact ⟨v, mem_begun.mpr (.inl hv), rfl, rfl⟩
    · exact ⟨v, mem_begun.mpr (.inr (.inl (hdones.subset hv))), rfl, rfl⟩
    · exact ⟨v, mem_begun.mpr (.inr (.inr (hfails.subset hv))), rfl, rfl⟩
  · exact hroots v (hdoings.mem_iff.mpr (List.mem_cons_of_mem _ hv))

theorem advances_enqueue (s : SchedulerState) (task : Task) (compiled : Except PlanError (Plan × Nat)) :
    s.Advances (s.enqueue task compiled).2 := by
  cases compiled with
  | ok => exact .of_lists rfl rfl rfl
  | error => exact .of_longer rfl List.prefix_rfl (List.prefix_append ..)

/-- A task that is started stands behind the running ones, and its root is known. -/
theorem startTask_doings (s : SchedulerState) (config : Config) (free : List Location) :
    (s.startTask config free).2.doings = s.doings ∨
      ∃ task todos u, s.todos = task :: todos ∧ (s.startTask config free).2.todos = todos ∧
        (s.startTask config free).2.doings = s.doings ++ [u] ∧ u.id = task.id ∧ u.root.isSome ∧
        u.dispatched = task.dispatched := by
  rw [startTask]
  rcases htodos : s.todos with _ | ⟨task, todos⟩
  · exact .inl rfl
  simp only
  split
  · exact .inl rfl
  split
  · exact .inl rfl
  split
  · exact .inl rfl
  split
  · exact .inl rfl
  · exact .inr ⟨task, todos, _, rfl, rfl, rfl, rfl, rfl, rfl⟩

theorem advances_startTask (s : SchedulerState) (config : Config) (free : List Location) :
    s.Advances (s.startTask config free).2 := by
  have hended : s.dones <+: (s.startTask config free).2.dones ∧
      s.fails <+: (s.startTask config free).2.fails := by
    have hattempt := s.startTask_attempt config free
    generalize Underway.ofStart (s.startTask config free).1 = call at hattempt
    generalize (s.startTask config free).2 = s' at hattempt
    cases hattempt with
    | idle | started => exact ⟨List.prefix_rfl, List.prefix_rfl⟩
    | refused => exact ⟨List.prefix_rfl, List.prefix_append ..⟩
  rcases s.startTask_doings config free with hsame | ⟨task, todos, u, _, _, hdoings, _, hroot, _⟩
  · exact .of_longer hsame hended.1 hended.2
  · refine ⟨hended.1, hended.2, fun t ht => ⟨t, ?_, rfl, rfl⟩, fun hroots t ht => ?_⟩
    · rw [mem_begun] at ht ⊢
      rw [hdoings]
      exact ht.imp (List.mem_append_left _) (Or.imp (hended.1.subset ·) (hended.2.subset ·))
    · rw [hdoings] at ht
      rcases List.mem_append.mp ht with ht | ht
      · exact hroots t ht
      · rwa [List.mem_singleton.mp ht]

theorem advances_markDispatched (s : SchedulerState) (id : TaskId) :
    s.Advances (s.markDispatched id) := by
  have hmap := TaskList.map_update (fun t => (t.id, t.root)) (f := ({ · with dispatched := true }))
    (fun _ => rfl) id s.doings
  refine ⟨List.prefix_rfl, List.prefix_rfl, fun t ht => ?_, fun hroots t ht => ?_⟩
  · rcases mem_begun.mp ht with ht | ht
    · obtain ⟨u, hu, heq⟩ := List.mem_map.mp (hmap.symm ▸ List.mem_map_of_mem ht)
      obtain ⟨hid, hroot⟩ := Prod.mk.inj heq
      exact ⟨u, mem_begun.mpr (.inl hu), hid, hroot⟩
    · exact ⟨t, mem_begun.mpr (.inr ht), rfl, rfl⟩
  · obtain ⟨u, hu, heq⟩ := List.mem_map.mp (hmap ▸ List.mem_map_of_mem ht)
    obtain ⟨_, hroot⟩ := Prod.mk.inj heq
    exact hroot ▸ hroots u hu

theorem advances_failDispatch (s : SchedulerState) (id : TaskId) (fault : TaskFault) (free : Bool) :
    s.Advances (s.failDispatch id fault free) := by
  rcases htake : s.doings.take? id with _ | ⟨task, doings⟩
  · simp only [failDispatch, htake]
    cases free <;> exact .of_lists rfl rfl rfl
  · have hperm := (TaskList.take?_ok htake).2
    simp only [failDispatch, htake]
    cases free <;> exact .of_filed hperm (u := { task with status := .failed, error := some fault })
      rfl rfl (.inr ⟨rfl, rfl⟩)

theorem advances_finish {success : Bool} {error : Option TaskFault} {rows : Option Split}
    (h : s.finish id success error rows = .ok s') : s.Advances s' := by
  obtain ⟨task, doings, htake, rfl⟩ := finish_eq_ok h
  have hperm := (TaskList.take?_ok htake).2
  cases success with
  | true => exact .of_filed hperm (u := { task with error, status := .done }) rfl rfl (.inl ⟨rfl, rfl⟩)
  | false => exact .of_filed hperm (u := { task with error, status := .failed }) rfl rfl (.inr ⟨rfl, rfl⟩)

theorem find?_eq (s : SchedulerState) (id : TaskId) : s.find? id = s.tasks.find? (·.id = id) := by
  simp only [find?, TaskList.get?, tasks, List.find?_append, Option.or_assoc]

/-- Rows are fetched for a task that is done, from the executor of its root. -/
theorem locateResults_inr {waiting : List TaskId} (hfiled : Filed waiting s) {root : Location}
    (h : s.locateResults id = .ok (.inr root)) :
    s.results.lookup id = none ∧ ∃ t ∈ s.dones, t.id = id ∧ t.root = some root := by
  rw [locateResults] at h
  split at h
  · cases h
  rename_i hlookup
  split at h
  · cases h
  rename_i task hfind
  split at h
  · cases h
  rename_i hdone
  split at h
  · cases h
  rename_i hroot
  cases h
  rw [find?_eq] at hfind
  obtain ⟨status, hmem⟩ := mem_tasks.mp (List.mem_of_find?_eq_some hfind)
  have hstatus : status = .done := (hfiled.status status task hmem).symm.trans (not_not.mp hdone)
  subst hstatus
  exact ⟨hlookup, task, hmem, by simpa using List.find?_some hfind, hroot⟩

theorem locateResults_inl {rows : Split} (h : s.locateResults id = .ok (.inl rows)) :
    s.results.lookup id = some rows := by
  rw [locateResults] at h
  split at h
  · cases h
    assumption
  · split at h
    · cases h
    · split at h
      · cases h
      · split at h <;> cases h

end SchedulerState

open SchedulerState (Advances)

/-- What a call relies on when it takes the lock again. -/
def Underway.Backed (s : SchedulerState) : Underway → Prop
  | admission task => task.status = .todo
  | dispatch _ => True
  | poll rest => ∀ r ∈ rest, ∃ t ∈ s.begun, t.id = r.task ∧ t.root = r.root
  | fetch id => ∃ t ∈ s.dones, t.id = id

/-- These are rows of a task that is done, as the executor of its root has answered them. -/
def SchedulerState.Earned (s : SchedulerState) (g : Record) (id : TaskId) (rows : Split) : Prop :=
  ∃ t ∈ s.dones, t.id = id ∧ ∃ root, t.root = some root ∧ ⟨root, id, rows⟩ ∈ g.answers

section Entries

variable {config : Config} {topology : Topology} {before after : Option Underway}
  {s s' : SchedulerState} {g g' : Record} {waiting : List TaskId}

theorem Underway.Backed.advances {c : Underway} (h : c.Backed s) (ha : s.Advances s') : c.Backed s' := by
  cases c with
  | admission | dispatch => exact h
  | poll rest =>
    intro r hr
    obtain ⟨t, ht, hid, hroot⟩ := h r hr
    obtain ⟨u, hu, hsame, hkept⟩ := ha.begun t ht
    exact ⟨u, hu, hsame.trans hid, hkept.trans hroot⟩
  | fetch id =>
    obtain ⟨t, ht, hid⟩ := h
    exact ⟨t, ha.dones.subset ht, hid⟩

theorem SchedulerState.Earned.advances {id : TaskId} {rows : Split} (h : s.Earned g id rows)
    (ha : s.Advances s') (hg : g.Grows g') : s'.Earned g' id rows := by
  obtain ⟨t, ht, hid, root, hroot, hanswer⟩ := h
  exact ⟨t, ha.dones.subset ht, hid, root, hroot, hg.answers hanswer⟩

theorem Locked.advances (h : Locked config topology before s after s') : s.Advances s' := by
  cases h with
  | issue | release | poll | pass | polled | locate | store | missed => exact .of_lists rfl rfl rfl
  | enqueue task compiled => exact s.advances_enqueue task compiled
  | start => exact s.advances_startTask config _
  | dispatched id => exact s.advances_markDispatched id
  | undispatched id fault => exact s.advances_failDispatch id fault _
  | finish h | close h => exact SchedulerState.advances_finish h

/-- What an entry does to the scheduler is a section, or some executors are taken back. -/
theorem Entry.locked_or (h : Entry config topology before s g after s' g') :
    Locked config topology before s after s' ∨
      before = none ∧ after = none ∧ s' = { s with allocated := s'.allocated } := by
  cases h with
  | locked h => exact .inl h
  | close _ _ h => exact .inl (.close h)
  | locate h => exact .inl (.locate h)
  | store => exact .inl (.store _ _)
  | release | answer | reread => exact .inr ⟨rfl, rfl, rfl⟩

theorem Entry.advances (h : Entry config topology before s g after s' g') : s.Advances s' := by
  rcases h.locked_or with hlocked | ⟨_, _, hsame⟩
  · exact hlocked.advances
  · rw [hsame]
    exact .of_lists rfl rfl rfl

theorem Entry.filed (h : Entry config topology before s g after s' g') (hbacked : ∀ c ∈ before, c.Backed s)
    (hfiled : Filed ((before.bind Underway.admits).toList ++ waiting) s) :
    Filed ((after.bind Underway.admits).toList ++ waiting) s' := by
  rcases h.locked_or with hlocked | ⟨rfl, rfl, hsame⟩
  · refine hlocked.filed (fun c hc => ?_) hfiled
    have hc := hbacked c hc
    cases c <;> first | exact hc | trivial
  · rw [hsame]
    exact ⟨hfiled.unique, hfiled.issued, hfiled.status⟩

theorem Locked.backed (h : Locked config topology before s after s') (hfiled : Filed waiting s)
    (hbacked : ∀ c ∈ before, c.Backed s) : ∀ c ∈ after, c.Backed s' := by
  have hrest : ∀ r rest, (Underway.poll (r :: rest)).Backed s → (Underway.poll rest).Backed s :=
    fun r rest hr r' hr' => hr r' (List.mem_cons_of_mem _ hr')
  cases h with
  | issue => exact fun c hc => by cases hc; rfl
  | start =>
    intro c hc
    obtain ⟨id, rfl⟩ := Underway.mem_ofStart hc
    trivial
  | poll =>
    intro c hc
    cases hc
    intro r hr
    obtain ⟨t, ht, rfl⟩ := List.mem_map.mp hr
    exact ⟨t, SchedulerState.mem_begun.mpr (.inl (List.mem_filter.mp ht).1), rfl, rfl⟩
  | pass r rest => exact fun c hc => by cases hc; exact hrest r rest (hbacked _ rfl)
  | close h =>
    exact fun c hc => by
      cases hc
      exact (hrest _ _ (hbacked _ rfl)).advances (SchedulerState.advances_finish h)
  | locate h =>
    intro c hc
    cases hc
    obtain ⟨_, t, ht, hid, _⟩ := SchedulerState.locateResults_inr hfiled h
    exact ⟨t, ht, hid⟩
  | enqueue | dispatched | undispatched | finish | release | polled | store | missed =>
    exact fun c hc => by cases hc

theorem Entry.backed (h : Entry config topology before s g after s' g') (hfiled : Filed waiting s)
    (hbacked : ∀ c ∈ before, c.Backed s) : ∀ c ∈ after, c.Backed s' := by
  rcases h.locked_or with hlocked | ⟨_, rfl, _⟩
  · exact hlocked.backed hfiled hbacked
  · exact fun c hc => by cases hc

/-- A task that is done with rows of the root that a poll has asked. -/
theorem earned_of_close {r : Running} {rest : List Running} {root : Location} {rows : Split}
    (hunique : s.ids.Nodup) (hbacked : (Underway.poll (r :: rest)).Backed s) (hroot : r.root = some root)
    (hanswer : ⟨root, r.task, rows⟩ ∈ g.answers)
    (h : s.finish r.task true none (some rows) = .ok s') : s'.Earned g r.task rows := by
  obtain ⟨task, doings, htake, rfl⟩ := SchedulerState.finish_eq_ok h
  obtain ⟨hid, hperm⟩ := TaskList.take?_ok htake
  obtain ⟨t, ht, htid, htroot⟩ := hbacked r List.mem_cons_self
  have htask : task ∈ s.begun := SchedulerState.mem_begun.mpr (.inl (hperm.mem_iff.mpr List.mem_cons_self))
  obtain rfl := SchedulerState.begun_eq_of_id hunique ht htask (htid.trans hid.symm)
  exact ⟨{ t with error := none, status := .done }, List.mem_append_right _ (List.mem_singleton_self _),
    hid, root, htroot.trans hroot, hanswer⟩

/-- Rows come into the store by an answer for a task that is done. -/
theorem Entry.stored (h : Entry config topology before s g after s' g') (hunique : s.ids.Nodup)
    (hbacked : ∀ c ∈ before, c.Backed s)
    (hlocated : ∀ q ∈ g.located, ∃ t ∈ s.dones, t.id = q.1 ∧ t.root = some q.2) :
    ∀ e ∈ s'.results, e ∈ s.results ∨ s'.Earned g' e.1 e.2 := by
  intro e he
  cases h with
  | locked _ hkept => exact .inl (hkept ▸ he)
  | release | answer | locate | reread => exact .inl he
  | @close _ _ _ r rest root rows hroot hanswer h =>
    have hearned := earned_of_close hunique (hbacked _ rfl) hroot hanswer h
    obtain ⟨_, _, _, rfl⟩ := SchedulerState.finish_eq_ok h
    rcases List.mem_cons.mp he with rfl | he
    · exact .inr hearned
    · exact .inl (List.mem_filter.mp he).1
  | @store _ _ id root rows hmem hanswer =>
    rcases List.mem_cons.mp he with rfl | he
    · obtain ⟨t, ht, hid, hroot⟩ := hlocated _ hmem
      exact .inr ⟨t, ht, hid, root, hroot, hanswer⟩
    · exact .inl (List.mem_filter.mp he).1

/-- Rows are given out from the store or as they were answered. -/
theorem Entry.returned (h : Entry config topology before s g after s' g')
    (hlocated : ∀ q ∈ g.located, ∃ t ∈ s.dones, t.id = q.1 ∧ t.root = some q.2)
    (hstored : ∀ e ∈ s.results, s.Earned g e.1 e.2) :
    ∀ e ∈ g'.returned, e ∈ g.returned ∨ s'.Earned g' e.1 e.2 := by
  intro e he
  cases h with
  | locked | release | answer | close | locate => exact .inl he
  | @store _ _ id root rows hmem hanswer =>
    rcases List.mem_cons.mp he with rfl | he
    · obtain ⟨t, ht, hid, hroot⟩ := hlocated _ hmem
      exact .inr ⟨t, ht, hid, root, hroot, hanswer⟩
    · exact .inl he
  | @reread _ _ id rows h =>
    rcases List.mem_cons.mp he with rfl | he
    · obtain ⟨front, back, hsplit, _⟩ :=
        List.lookup_eq_some_iff.mp (SchedulerState.locateResults_inl h)
      exact .inr (hstored _ (hsplit ▸ List.mem_append_right _ List.mem_cons_self))
    · exact .inl he

theorem Entry.located (h : Entry config topology before s g after s' g') (hfiled : Filed waiting s) :
    ∀ q ∈ g'.located, q ∈ g.located ∨ ∃ t ∈ s'.dones, t.id = q.1 ∧ t.root = some q.2 := by
  intro q hq
  cases h with
  | locked | release | answer | close | store | reread => exact .inl hq
  | locate h =>
    rcases List.mem_cons.mp hq with rfl | hq
    · exact .inr (SchedulerState.locateResults_inr hfiled h).2
    · exact .inl hq

end Entries

namespace Ledger

/-- What holds of tasks, of the calls under way and of all rows, whoever comes next. -/
structure Sound (x : Ledger) : Prop where
  filed : Filed (x.calls.filterMap Underway.admits) x.scheduler
  backed : ∀ c ∈ x.calls, c.Backed x.scheduler
  roots : ∀ t ∈ x.scheduler.doings, t.root.isSome
  located : ∀ q ∈ x.record.located, ∃ t ∈ x.scheduler.dones, t.id = q.1 ∧ t.root = some q.2
  stored : ∀ e ∈ x.scheduler.results, x.scheduler.Earned x.record e.1 e.2
  returned : ∀ e ∈ x.record.returned, x.scheduler.Earned x.record e.1 e.2

variable {config : Config} {x y : Ledger}

theorem sound_start (topology : Topology) : (start topology).Sound where
  filed := .start
  backed := List.forall_mem_nil _
  roots := List.forall_mem_nil _
  located := List.forall_mem_nil _
  stored := List.forall_mem_nil _
  returned := List.forall_mem_nil _

theorem Step.advances (h : Step config x y) : x.scheduler.Advances y.scheduler := by
  cases h with
  | entry _ _ h => exact h.advances
  | topology => exact .refl _

theorem Sound.step (hx : x.Sound) (h : Step config x y) : y.Sound := by
  cases h with
  | topology => exact ⟨hx.filed, hx.backed, hx.roots, hx.located, hx.stored, hx.returned⟩
  | @entry s s' t before after g g' front back h =>
    have hfiled : Filed ((before.bind Underway.admits).toList ++
        (front ++ back).filterMap Underway.admits) s :=
      hx.filed.of_perm ((Shared.calls_perm _ front back before).symm.append_left _) rfl hx.filed.status
    obtain ⟨hbefore, hothers⟩ := Shared.forall_calls.mp hx.backed
    have hunique := (List.nodup_append.mp hfiled.unique).1
    have ha := h.advances
    have hg := h.grows
    have hcalls := Shared.forall_calls.mpr
      ⟨h.backed hfiled hbefore, fun c hc => (hothers c hc).advances ha⟩
    refine ⟨?_, hcalls, ha.roots hx.roots, fun q hq => ?_, fun e he => ?_, fun e he => ?_⟩
    · have hnew := h.filed hbefore hfiled
      exact hnew.of_perm ((Shared.calls_perm _ front back after).append_left _) rfl hnew.status
    · rcases h.located hfiled q hq with hq | hq
      · obtain ⟨t, ht, hid, hroot⟩ := hx.located q hq
        exact ⟨t, ha.dones.subset ht, hid, hroot⟩
      · exact hq
    · rcases h.stored hunique hbefore hx.located e he with he | he
      · exact (hx.stored e he).advances ha hg
      · exact he
    · rcases h.returned hx.located hx.stored e he with he | he
      · exact (hx.returned e he).advances ha hg
      · exact he

theorem Sound.steps (hx : x.Sound) (h : Steps config x y) : y.Sound := by
  induction h with
  | refl => exact hx
  | tail _ hstep ih => exact ih.step hstep

theorem Steps.advances (h : Steps config x y) : x.scheduler.Advances y.scheduler := by
  induction h with
  | refl => exact .refl _
  | tail _ hstep ih => exact ih.trans hstep.advances

section Lone

open Shared (loneTopology loneTask lonePlan loneQueue loneRunning)

def loneRows : Split :=
  { schema := { columns := [⟨"n", .int64⟩] }, rows := [{ values := [.int64 5] }] }

def loneDispatched : SchedulerState := loneRunning.markDispatched 1

def lone : Location := ⟨"lone", "host", 1⟩

theorem lone_dispatches : Underway.ofStart (loneQueue.startTask {} (loneQueue.free loneTopology)).1 =
    some (.dispatch 1) := by
  have htask : (loneQueue.startTask {} (loneQueue.free loneTopology)).1.toOption.bind
      (fun x => x.getRight?.map (·.task)) = some 1 := by decide +kernel
  generalize (loneQueue.startTask {} (loneQueue.free loneTopology)).1 = r at htask
  rcases r with _ | _ | start
  · cases htask
  · cases htask
  · exact congrArg (some <| Underway.dispatch ·) (Option.some.inj htask)

theorem lone_steps : Steps {} (start loneTopology) ⟨loneDispatched, loneTopology, [], {}⟩ := by
  have hissue : Step {} (start loneTopology)
      ⟨(SchedulerState.takeId {}).2, loneTopology, [.admission loneTask], {}⟩ :=
    .entry [] [] (.locked (.issue "" "c" "s" 0 0 (by decide)) rfl)
  have henqueue : Step {} ⟨(SchedulerState.takeId {}).2, loneTopology, [.admission loneTask], {}⟩
      ⟨loneQueue, loneTopology, [], {}⟩ :=
    .entry [] [] (.locked (.enqueue loneTask (.ok (lonePlan, 1))) rfl)
  have hstart : Step {} ⟨loneQueue, loneTopology, [], {}⟩
      ⟨loneRunning, loneTopology, [.dispatch 1], {}⟩ := by
    have hlocked := @Locked.start {} loneTopology loneQueue
    rw [lone_dispatches] at hlocked
    exact .entry [] [] (.locked hlocked (SchedulerState.results_startTask ..))
  have hdispatched : Step {} ⟨loneRunning, loneTopology, [.dispatch 1], {}⟩
      ⟨loneDispatched, loneTopology, [], {}⟩ := .entry [] [] (.locked (.dispatched 1) rfl)
  exact (((Relation.ReflTransGen.single hissue).tail henqueue).tail hstart).tail hdispatched

end Lone

end Ledger

end QueryCluster
