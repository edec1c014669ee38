import QueryCluster.Proofs.Scheduler.Consistency
import QueryCluster.Proofs.Scheduler.Fitting
import QueryCluster.Proofs.Scheduler.Hiring

/-!
# Free executors are at rest

A scheduler that is alone with the executors of a network has told each of them to abort before it gives it
back, whether a poll has ended its task or a dispatch has failed. `finishTask` alone gives executors back
without a call to them: one that is still at work then refuses the instruction of the task that gets it next.
So a list of the executors that were left in this way goes with every run.
-/
namespace QueryCluster

open SchedulerState (Filed Leased)

namespace SchedulerState

variable {s s' : SchedulerState} {config : Config} {topology : Topology} {start : Start}

/-- A task that starts gets executors that were free, and none was held in its name. -/
structure Launches (s : SchedulerState) (topology : Topology) (start : Start) (s' : SchedulerState) : Prop where
  once : (start.nodes.map (·.location)).Nodup
  free : ∀ a ∈ start.nodes, a.location ∈ s.free topology
  task : ∀ a ∈ start.nodes, a.instruction.task = start.task
  held : ∀ name, name ∈ (start.nodes.map (·.location)).map (·.name) → (name, start.task) ∈ s'.allocated
  kept : ∀ e ∈ s.allocated, e ∈ s'.allocated
  fresh : ∀ e ∈ s.allocated, e.2 ≠ start.task
  doings : ∀ t ∈ s'.doings, t ∈ s.doings ∨ ∀ l ∈ t.executors, l ∈ s.free topology

theorem startTask_launches (hnames : (topology.map (·.location.name)).Nodup) (hfiled : Filed [] s)
    (hleased : Leased config.abortOnDispatchFailure s)
    (h : s.startTask config (s.free topology) = (.ok (.inr start), s')) : s.Launches topology start s' := by
  obtain ⟨task, started, todos, plan, p, g, htodos, hbind, htask, hnodes, hid, hexecutors, rfl⟩ :=
    startTask_eq_ok h
  obtain ⟨_, honce, hfree⟩ := Plan.bind_wired (nodup_free hnames) hbind
  have hplaces : start.nodes.map (·.location) = Plan.placesOf g.nodes := by rw [hnodes, places_assignments]
  have hqueued : task ∈ s.listOf .todo := by
    rw [listOf, htodos]
    exact List.mem_cons_self
  refine ⟨hplaces ▸ honce, fun a ha => ?_, fun a ha => ?_, fun name hname => ?_, fun e he => ?_,
    fun e he heq => ?_, fun t ht => ?_⟩
  · exact hfree _ (hplaces ▸ List.mem_map_of_mem ha)
  · rw [hnodes] at ha
    obtain ⟨n, _, rfl⟩ := List.mem_map.mp ha
    exact htask.symm
  · rw [hplaces] at hname
    exact mem_allocate.mpr (.inl ⟨hname, htask⟩)
  · exact mem_allocate.mpr (.inr ⟨bind_fresh hbind he, he⟩)
  · -- a task that holds executors runs or has failed, and this one is still queued
    have hother : ∀ status t, t ∈ s.listOf status → t.id = e.2 → status = .todo := by
      intro status t ht heid
      have hsame := eq_of_id (hfiled.unique.of_append_left) ht hqueued (heid.trans (heq.trans htask))
      exact (hfiled.status status t ht).symm.trans (hsame ▸ hfiled.status .todo task hqueued)
    rcases hleased.holders e he with ⟨t, ht, heid, _⟩ | ⟨_, t, ht, heid⟩
    · cases hother .doing t ht heid
    · cases hother .failed t ht heid
  · rcases List.mem_append.mp ht with ht | ht
    · exact .inl ht
    · obtain rfl := List.mem_singleton.mp ht
      exact .inr fun l hl => hfree l (hexecutors ▸ hl)

end SchedulerState

/-- The scheduler knows executors by different names, and finds each at its location. -/
structure Network.Staffs (n : Network) (topology : Topology) : Prop where
  names : (topology.map (·.location.name)).Nodup
  hosts : ∀ e ∈ topology, ∃ i, n.Hosts e.location i

namespace World

variable {config : Config} {w w' : World Network} {left left' : List (String × TaskId)}
  {c : Client (World Network)}

/-- Executors that work for a task, each with it. -/
def workers (w : World Network) (task : TaskId) : List (String × TaskId) :=
  (w.outside.workers.filter fun v => v.slot.AtWork ∧ v.slot.task = some task).map fun v =>
    (v.location.name, task)

/-- What holds between the calls of a scheduler that is alone with its executors: those that are at work are so
for the task that holds them, if they have not been left in the middle of another one. -/
structure Tended (config : Config) (w : World Network) (left : List (String × TaskId)) : Prop where
  filed : Filed [] w.scheduler
  leased : Leased config.abortOnDispatchFailure w.scheduler
  staff : w.outside.Staffs w.topology
  names : (w.outside.workers.map (·.location.name)).Nodup
  hosts : ∀ t ∈ w.scheduler.doings, ∀ l ∈ t.executors, ∃ i, w.outside.Hosts l i
  covered : w.outside.Covered fun name task => (name, task) ∈ w.scheduler.allocated ∨ (name, task) ∈ left

namespace Tended

theorem moved (h : Tended config w left) (hplaces : w.outside.SamePlaces w'.outside)
    (htopology : w'.topology = w.topology) (hfiled : Filed [] w'.scheduler)
    (hleased : Leased config.abortOnDispatchFailure w'.scheduler)
    (hdoings : ∀ t ∈ w'.scheduler.doings, ∀ l ∈ t.executors, ∃ i, w.outside.Hosts l i)
    (hcovered : w'.outside.Covered fun name task =>
      (name, task) ∈ w'.scheduler.allocated ∨ (name, task) ∈ left') : Tended config w' left' where
  filed := hfiled
  leased := hleased
  staff := by
    rw [htopology]
    exact ⟨h.staff.names, fun e he => (h.staff.hosts e he).imp fun _ => hplaces.hosts⟩
  names := hplaces.names ▸ h.names
  hosts t ht l hl := (hdoings t ht l hl).imp fun _ => hplaces.hosts
  covered := hcovered

theorem calms (h : Tended config w left) (hw : Outside Network.Calms w w') : Tended config w' left := by
  refine h.moved hw.outside.places hw.topology ?_ ?_ ?_ ?_ <;> rw [hw.scheduler]
  · exact h.filed
  · exact h.leased
  · exact h.hosts
  · exact h.covered.calms hw.outside

theorem start {n : Network} {topology : Topology} (hrest : ∀ v ∈ n.workers, ¬v.slot.AtWork)
    (hnames : (n.workers.map (·.location.name)).Nodup) (hstaff : n.Staffs topology) :
    Tended config { topology, outside := n } [] := by
  have hsound : (Shared.start topology).Sound config := Shared.sound_start hstaff.names
  exact ⟨hsound.filed, hsound.leased, hstaff, hnames, List.forall_mem_nil _,
    fun v hv hwork => absurd hwork (hrest v hv)⟩

theorem addTask (h : Tended config w left) (time : Nat) (query catalog schema : String) (priority : Int)
    (hnext : w.scheduler.nextId + 1 ≠ 0) :
    Tended config (w.addTask time query catalog schema priority).2 left := by
  let task : Task := { id := w.scheduler.takeId.1, query, catalog, schema, priority, committed := time }
  have hissued : Filed [task.id] w.scheduler.takeId.2 := h.filed.issue hnext
  have hfiled := hissued.enqueue rfl (compile query catalog schema)
  refine h.moved (Network.Calms.refl _).places rfl hfiled ?_ ?_ ?_ <;>
    simp only [World.addTask, onScheduler] <;> cases compile query catalog schema
  · exact h.leased.of_same rfl (fun _ ht => List.mem_append_left _ ht) rfl
  · exact h.leased.of_same rfl (fun _ ht => ht) rfl
  · exact h.hosts
  · exact h.hosts
  · exact h.covered
  · exact h.covered

theorem finishTask (h : Tended config w left) {task : TaskId} {success : Bool} {message : Option String}
    (hok : (w.finishTask task success message).1 = .ok ()) :
    Tended config (w.finishTask task success message).2 (w.workers task ++ left) := by
  rw [World.finishTask] at hok ⊢
  split at hok
  · rename_i s hfinish
    obtain ⟨hended, hallocated⟩ := SchedulerState.finish_ok hfinish
    have hunique := h.filed.unique.of_append_left
    refine h.moved (Network.Calms.refl _).places rfl (h.filed.ended hended)
      (h.leased.ended hunique hended hallocated)
      (fun t ht => h.hosts t ((hended.mem_doings hunique t).mp ht).1) fun v hv hwork => ?_
    obtain ⟨t, ht, hheld⟩ := h.covered v hv hwork
    refine ⟨t, ht, ?_⟩
    rcases hheld with hheld | hleft
    · by_cases htask : t = task
      · subst htask
        refine .inr (List.mem_append_left _ (List.mem_map.mpr ⟨v, ?_, rfl⟩))
        exact List.mem_filter.mpr ⟨hv, decide_eq_true ⟨hwork, ht⟩⟩
      · left
        show _ ∈ s.allocated
        rw [hallocated]
        exact List.mem_filter.mpr ⟨hheld, decide_eq_true htask⟩
    · exact .inr (List.mem_append_right _ hleft)
  · cases hok

theorem attempted (h : Tended config w left) {s : SchedulerState}
    (ha : w.scheduler.Attempt w.free none s) : Tended config (w.onScheduler s) left := by
  refine h.moved (Network.Calms.refl _).places rfl (h.filed.attempt ha) (h.leased.attempt ha)
    ?_ ?_
  · cases ha <;> exact h.hosts
  · exact h.covered.mono fun name task held => held.imp_left (ha.mem_allocated)

theorem free_hosts (h : Tended config w left) : ∀ l ∈ w.free, ∃ i, w.outside.Hosts l i := by
  intro l hl
  obtain ⟨e, he, rfl⟩ := List.mem_map.mp hl
  exact h.staff.hosts e (List.mem_filter.mp he).1

section Launch

variable {start : Start} {s : SchedulerState} (h : Tended config w left)
  (hlaunch : w.scheduler.Launches w.topology start s) (hfiled : Filed [] s)
  (hleased : Leased config.abortOnDispatchFailure s)

include h hlaunch

theorem launch_hosts : ∀ t ∈ s.doings, ∀ l ∈ t.executors, ∃ i, w.outside.Hosts l i := fun t ht l hl =>
  (hlaunch.doings t ht).elim (fun ht => h.hosts t ht l hl) fun hfree => h.free_hosts l (hfree l hl)

theorem launch_covered {hired : List Location} (hsub : hired ⊆ start.nodes.map (·.location))
    (hw : Outside (Network.Hires start.task hired) (w.onScheduler s) w') :
    w'.outside.Covered fun name task => (name, task) ∈ s.allocated ∨ (name, task) ∈ left := by
  refine (h.covered.hires hw.outside).mono ?_
  rintro name task ((hheld | hleft) | ⟨rfl, hname⟩)
  · exact .inl (hlaunch.kept _ hheld)
  · exact .inr hleft
  · exact .inl (hlaunch.held name (List.map_subset _ hsub hname))

/-- Those that were not contacted have never been at work for the task, and all others have been told to
abort. -/
theorem launch_undone (hc : c.Serves) {hired : List Location} (hsub : hired ⊆ start.nodes.map (·.location))
    (hw : Outside (Network.Hires start.task hired) (w.onScheduler s) w') :
    Outside Network.SamePlaces (w.onScheduler s) (abortAll c start.task hired w') ∧
    (abortAll c start.task hired w').outside.Covered fun name task =>
      (name, task) ∈ w.scheduler.allocated ∨ (name, task) ∈ left := by
  have hhosts : ∀ l ∈ hired, ∃ i, w'.outside.Hosts l i := fun l hl => by
    obtain ⟨a, ha, rfl⟩ := List.mem_map.mp (hsub hl)
    exact (h.free_hosts _ (hlaunch.free a ha)).imp fun _ => hw.outside.places.hosts
  have hfrees := hc.abortAll start.task hhosts
  have hcovered := (h.covered.hires hw.outside).frees (hw.outside.places.names ▸ h.names) hfrees.outside hhosts
  refine ⟨hw.trans hfrees fun h h' => h.places.trans h'.calms.places, hcovered.mono ?_⟩
  rintro name task ⟨hheld | htask, hnot⟩
  · exact hheld
  · exact absurd htask hnot

include hfiled hleased

theorem dispatched (hw : Outside (Network.Hires start.task (start.nodes.map (·.location)))
    (w.onScheduler s) w') :
    Tended config (w'.onScheduler (w'.scheduler.markDispatched start.task)) left := by
  have hcovered := h.launch_covered hlaunch (List.Subset.refl _) hw
  refine h.moved hw.outside.places hw.topology ?_ ?_ ?_ ?_ <;> simp only [onScheduler, hw.scheduler]
  · exact hfiled.markDispatched start.task
  · exact hleased.markDispatched start.task
  · intro t ht
    have hmap := TaskList.map_update (·.executors) (f := ({ · with dispatched := true })) (fun _ => rfl)
      start.task s.doings
    obtain ⟨u, hu, heq⟩ := List.mem_map.mp (hmap ▸ List.mem_map_of_mem ht)
    exact heq ▸ h.launch_hosts hlaunch u hu
  · exact hcovered

/-- Where executors are given back, all that were sent an instruction have been told to abort. -/
theorem undispatched (hc : c.Serves) {hired : List Location} (hsub : hired ⊆ start.nodes.map (·.location))
    (hw : Outside (Network.Hires start.task hired) (w.onScheduler s) w') (fault : TaskFault) :
    let w'' := if config.abortOnDispatchFailure then abortAll c start.task hired w' else w'
    Tended config (w''.onScheduler
      (w''.scheduler.failDispatch start.task fault config.abortOnDispatchFailure)) left := by
  intro w''
  obtain ⟨hallocated, hcases⟩ := s.failDispatch_cases start.task fault config.abortOnDispatchFailure
  have hend : Outside Network.SamePlaces (w.onScheduler s) w'' ∧ w''.outside.Covered fun name task =>
      (name, task) ∈ (s.failDispatch start.task fault config.abortOnDispatchFailure).allocated ∨
        (name, task) ∈ left := by
    rw [hallocated]
    by_cases habort : config.abortOnDispatchFailure
    · simp only [w'', if_pos habort]
      obtain ⟨hplaces, hcovered⟩ := h.launch_undone hlaunch hc hsub hw
      refine ⟨hplaces, hcovered.mono fun name task held => held.imp_left fun hheld => ?_⟩
      exact List.mem_filter.mpr ⟨hlaunch.kept _ hheld, decide_eq_true (hlaunch.fresh _ hheld)⟩
    · simp only [w'', if_neg habort]
      exact ⟨⟨hw.scheduler, hw.topology, hw.outside.places⟩, h.launch_covered hlaunch hsub hw⟩
  obtain ⟨hplaces, hcovered⟩ := hend
  refine h.moved hplaces.outside hplaces.topology ?_ ?_ ?_ ?_ <;> simp only [onScheduler, hplaces.scheduler]
  · exact hfiled.failDispatch start.task fault config.abortOnDispatchFailure
  · exact hleased.failDispatch hfiled.unique.of_append_left start.task fault
  · intro t ht
    refine h.launch_hosts hlaunch t ?_
    rcases hcases with ⟨⟨_, ⟨_, _, hperm⟩, _, _⟩, _⟩ | ⟨_, hsame⟩
    · exact hperm.mem_iff.mpr (List.mem_cons_of_mem _ ht)
    · rwa [hsame] at ht
  · exact hcovered

end Launch

/-- Only free executors are brought to work, and where they are given back they have been told to abort. -/
theorem runTask (h : Tended config w left) (hc : c.Serves) (order : Phase → List Nat) :
    Tended config (World.runTask c config order w).2 left ∧
    ∀ task name state, (World.runTask c config order w).1 = .error (.dispatch task .sendInstruction name
        (.remote (ExecutorError.notAllowed "send_instruction" (.state state)).message)) →
      ∃ l ∈ w.free, l.name = name ∧ w.Busy l := by
  have hattempt := w.scheduler.startTask_attempt config w.free
  rcases hstart : w.scheduler.startTask config w.free with ⟨e | outcome | start, s⟩ <;>
    rw [hstart] at hattempt <;> simp only [World.runTask, hstart]
  · refine ⟨h.attempted hattempt, fun task name state herror => ?_⟩
    exact absurd (Except.error.inj herror) (SchedulerState.startTask_eq_error hstart _ _ _ _)
  · exact ⟨h.attempted hattempt, fun _ _ _ herror => by cases herror⟩
  · have hlaunch := SchedulerState.startTask_launches h.staff.names h.filed h.leased hstart
    have hfiled := h.filed.attempt hattempt
    have hleased := h.leased.attempt hattempt
    obtain ⟨hgood, hbad⟩ := hc.dispatch (w := w.onScheduler s) config.dispatchMode order hlaunch.once
      (fun a ha => h.free_hosts _ (hlaunch.free a ha)) hlaunch.task
    rcases hd : c.dispatch config.dispatchMode order start.nodes (w.onScheduler s) with ⟨f | _, w'⟩ <;>
      rw [hd] at hgood hbad
    · obtain ⟨hw, hsub, hrefused⟩ := hbad f rfl
      refine ⟨h.undispatched hlaunch hfiled hleased hc hsub hw _, fun task name state herror => ?_⟩
      simp only [Except.error.injEq, SchedulerError.dispatch.injEq] at herror
      obtain ⟨_, hphase, hname, herror⟩ := herror
      obtain ⟨hmem, hbusy⟩ := hrefused hphase state herror
      obtain ⟨a, ha, heq⟩ := List.mem_map.mp hmem
      exact ⟨f.location, heq ▸ hlaunch.free a ha, hname, hbusy⟩
    · exact ⟨h.dispatched hlaunch hfiled hleased (hgood rfl), fun _ _ _ herror => by cases herror⟩

/-- What a poll looks at is what the running task of its number has. -/
structure Watches (w : World Network) (r : Running) : Prop where
  executors : ∀ t ∈ w.scheduler.doings, t.id = r.task → t.executors = r.executors
  hosts : ∀ l ∈ r.executors, ∃ i, w.outside.Hosts l i

/-- Only tasks have ended. -/
structure Fewer (w w' : World Network) : Prop where
  places : w.outside.SamePlaces w'.outside
  doings : w'.scheduler.doings ⊆ w.scheduler.doings

theorem Fewer.trans {w'' : World Network} (h : Fewer w w') (h' : Fewer w' w'') : Fewer w w'' :=
  ⟨h.places.trans h'.places, List.Subset.trans h'.doings h.doings⟩

theorem Fewer.watches {r : Running} (h : Fewer w w') (hr : Watches w r) : Watches w' r :=
  ⟨fun t ht => hr.executors t (h.doings ht), fun l hl => (hr.hosts l hl).imp fun _ => h.places.hosts⟩

theorem fewer_of_calms (h : Outside Network.Calms w w') : Fewer w w' :=
  ⟨h.outside.places, h.scheduler ▸ List.Subset.refl _⟩

theorem aborted (hc : c.Serves) {r : Running} (hr : Watches w r) :
    Outside Network.Calms w (abortAll c r.task r.executors w) := by
  have hfrees := hc.abortAll r.task hr.hosts
  exact ⟨hfrees.scheduler, hfrees.topology, hfrees.outside.calms⟩

/-- All executors of a task that has ended have been told to abort. -/
theorem closed (h : Tended config w left) (hc : c.Serves) {r : Running} (hr : Watches w r) {success : Bool}
    {error : Option TaskFault} {rows : Option Split} {s : SchedulerState}
    (hfinish : (abortAll c r.task r.executors w).scheduler.finish r.task success error rows = .ok s) :
    Tended config ((abortAll c r.task r.executors w).onScheduler s) left ∧
      Fewer w ((abortAll c r.task r.executors w).onScheduler s) := by
  have hfrees := hc.abortAll r.task hr.hosts
  rw [hfrees.scheduler] at hfinish
  obtain ⟨hended, hallocated⟩ := SchedulerState.finish_ok hfinish
  obtain ⟨u, hid, hperm⟩ := hended.doings
  have hunique := h.filed.unique.of_append_left
  have hplaces := hfrees.outside.calms.places
  refine ⟨h.moved hplaces hfrees.topology (h.filed.ended hended) (h.leased.ended hunique hended hallocated)
    (fun t ht => h.hosts t ((hended.mem_doings hunique t).mp ht).1)
    ((h.covered.frees h.names hfrees.outside hr.hosts).mono ?_), hplaces, fun t ht => ?_⟩
  · rintro name task ⟨hheld | hleft, hnot⟩
    · refine .inl ?_
      show _ ∈ s.allocated
      rw [hallocated]
      refine List.mem_filter.mpr ⟨hheld, decide_eq_true fun htask => ?_⟩
      have hrunning : u ∈ w.scheduler.listOf .doing := hperm.mem_iff.mpr List.mem_cons_self
      rcases h.leased.holders _ hheld with ⟨t, ht, htid, hname⟩ | ⟨_, t, ht, htid⟩
      · exact hnot ⟨htask, hr.executors t ht (htid.trans htask) ▸ hname⟩
      · -- a task that runs has not failed
        obtain rfl := SchedulerState.eq_of_id (i := .failed) hunique ht hrunning
          (htid.trans (htask.trans hid.symm))
        exact nomatch (h.filed.status .failed t ht).symm.trans (h.filed.status .doing t hrunning)
    · exact .inr hleft
  · exact hperm.mem_iff.mpr (List.mem_cons_of_mem _ ht)

theorem pollTask (h : Tended config w left) (hc : c.Serves) {r : Running} (hr : Watches w r) :
    Tended config (World.pollTask c r w).2 left ∧ Fewer w (World.pollTask c r w).2 := by
  have hjudge := hc.judge r w
  rw [World.pollTask]
  rcases heq : World.judge c r w with ⟨verdict, rows, w'⟩
  rw [heq] at hjudge
  have hjudged := h.calms hjudge
  have hfewer : Fewer w w' := fewer_of_calms hjudge
  have hr' := hfewer.watches hr
  have haborted := aborted hc hr'
  have hopen : Tended config (abortAll c r.task r.executors w') left ∧
      Fewer w (abortAll c r.task r.executors w') :=
    ⟨hjudged.calms haborted, hfewer.trans (fewer_of_calms haborted)⟩
  cases verdict with
  | running => exact ⟨hjudged, hfewer⟩
  | done | failed =>
    dsimp only
    split
    · exact (hjudged.closed hc hr' ‹_›).imp_right hfewer.trans
    · exact hopen

theorem pollEach (h : Tended config w left) (hc : c.Serves) {rs : List Running}
    (hrs : ∀ r ∈ rs, Watches w r) : Tended config (World.pollEach c rs w).2 left := by
  induction rs generalizing w with
  | nil => exact h
  | cons r rs ih =>
    obtain ⟨hr, hrs⟩ := List.forall_mem_cons.mp hrs
    obtain ⟨hnext, hfewer⟩ := h.pollTask hc hr
    exact ih hnext fun r' hr' => hfewer.watches (hrs r' hr')

theorem pollRunning (h : Tended config w left) (hc : c.Serves) :
    Tended config (World.pollRunning c w).2 left := by
  refine h.pollEach hc fun r hr => ?_
  obtain ⟨t, ht, rfl⟩ := List.mem_map.mp hr
  have hrunning := (List.mem_filter.mp ht).1
  refine ⟨fun u hu hid => ?_, h.hosts t hrunning⟩
  exact congrArg Task.executors
    (SchedulerState.eq_of_id (i := .doing) (j := .doing) h.filed.unique.of_append_left hu hrunning hid)

theorem fetchResults (h : Tended config w left) (hc : c.Serves) (task : TaskId) :
    Tended config (World.fetchResults c task w).2 left := by
  rw [World.fetchResults]
  split
  · exact h
  · exact h
  · rename_i root _
    have hcall := (hc.results root task w).calms fun t h => by cases h
    split
    all_goals
      rename_i hresults
      rw [hresults] at hcall
    · exact h.calms hcall
    · have hafter := h.calms hcall
      exact hafter.moved (Network.Calms.refl _).places rfl
        ⟨hafter.filed.unique, hafter.filed.issued, hafter.filed.status⟩
        (hafter.leased.of_same rfl (fun _ ht => ht) rfl) hafter.hosts hafter.covered

end Tended

/-- What comes of the calls of a scheduler that is alone with the executors of a network. Executors may change
their status in between and work on by themselves. The list has those that were at work for a task when
`finishTask` ended it. -/
inductive Run (config : Config) : World Network → List (String × TaskId) → Prop
  | start {n : Network} {topology : Topology} (hrest : ∀ v ∈ n.workers, ¬v.slot.AtWork)
      (hnames : (n.workers.map (·.location.name)).Nodup) (hstaff : n.Staffs topology) :
      Run config { topology, outside := n } []
  | work {w : World Network} {left : List (String × TaskId)} {n : Network} (h : Run config w left)
      (hwork : w.outside.Work n) : Run config { w with outside := n } left
  | staff {w : World Network} {left : List (String × TaskId)} {topology : Topology} (h : Run config w left)
      (hstaff : w.outside.Staffs topology) : Run config { w with topology } left
  | addTask {w : World Network} {left : List (String × TaskId)} (time : Nat)
      (query catalog schema : String) (priority : Int) (h : Run config w left)
      (hnext : w.scheduler.nextId + 1 ≠ 0) :
      Run config (w.addTask time query catalog schema priority).2 left
  | runTask {w : World Network} {left : List (String × TaskId)} {c : Client (World Network)}
      (order : Phase → List Nat) (h : Run config w left) (hc : c.Serves) :
      Run config (World.runTask c config order w).2 left
  | pollRunning {w : World Network} {left : List (String × TaskId)} {c : Client (World Network)}
      (h : Run config w left) (hc : c.Serves) : Run config (World.pollRunning c w).2 left
  | finishTask {w : World Network} {left : List (String × TaskId)} {task : TaskId} {success : Bool}
      {message : Option String} (h : Run config w left)
      (hok : (w.finishTask task success message).1 = .ok ()) :
      Run config (w.finishTask task success message).2 (w.workers task ++ left)
  | fetchResults {w : World Network} {left : List (String × TaskId)} {c : Client (World Network)}
      (task : TaskId) (h : Run config w left) (hc : c.Serves) :
      Run config (World.fetchResults c task w).2 left

theorem Run.tended (h : Run config w left) : Tended config w left := by
  induction h with
  | start hrest hnames hstaff => exact .start hrest hnames hstaff
  | work _ hwork ih => exact ih.calms ⟨rfl, rfl, hwork.calms⟩
  | staff _ hstaff ih => exact ⟨ih.filed, ih.leased, hstaff, ih.names, ih.hosts, ih.covered⟩
  | addTask time query catalog schema priority _ hnext ih =>
    exact ih.addTask time query catalog schema priority hnext
  | runTask order _ hc ih => exact (ih.runTask hc order).1
  | pollRunning _ hc ih => exact ih.pollRunning hc
  | finishTask _ hok ih => exact ih.finishTask hok
  | fetchResults task _ hc ih => exact ih.fetchResults hc task

/-- A free executor takes the next instruction, unless `finishTask` has left it at work: a free executor that is
at work is so for a task that was ended in this way, and no other refuses an instruction for its state. -/
theorem Run.refused_only_if_left (h : Run config w left) :
    (∀ v ∈ w.outside.workers, v.location ∈ w.free → v.slot.AtWork →
      ∃ task, v.slot.task = some task ∧ (v.location.name, task) ∈ left) ∧
    ∀ c : Client (World Network), c.Serves → ∀ order task name state,
      (World.runTask c config order w).1 = .error (.dispatch task .sendInstruction name
        (.remote (ExecutorError.notAllowed "send_instruction" (.state state)).message)) →
      ∃ v ∈ w.outside.workers, v.location ∈ w.free ∧ v.location.name = name ∧ v.slot.AtWork ∧
        ∃ earlier, v.slot.task = some earlier ∧ (name, earlier) ∈ left := by
  have htended := h.tended
  have hleft : ∀ v ∈ w.outside.workers, v.location ∈ w.free → v.slot.AtWork →
      ∃ task, v.slot.task = some task ∧ (v.location.name, task) ∈ left := by
    intro v hv hfree hwork
    obtain ⟨task, htask, hheld | hleft⟩ := htended.covered v hv hwork
    · exact absurd (List.mem_map_of_mem hheld) (SchedulerState.not_allocated_of_free hfree)
    · exact ⟨task, htask, hleft⟩
  refine ⟨hleft, fun c hc order task name state hrefused => ?_⟩
  obtain ⟨l, hfree, rfl, i, hhosts, hwork⟩ := (htended.runTask hc order).2 task name state hrefused
  obtain ⟨v, hv, rfl, hslot⟩ := hhosts.slot
  have hmem := List.mem_of_getElem? hv
  exact ⟨v, hmem, hfree, rfl, hslot ▸ hwork, hleft v hmem hfree (hslot ▸ hwork)⟩

section Stalled

open Shared (loneTopology)

/-- A lone executor whose table is not at hand, so that a scan of it does not end. -/
def stalled : World Network where
  topology := loneTopology
  outside := {
    workers := [{ location := ⟨"lone", "host", 1⟩, workplace := Network.bareplace, held := ["t"] }] }

def scanQuery : String :=
  "steps:\n  - op: scan\n    table: t\n    columns:\n      - name: n\n        type: Int64\n"

def withScan (w : World Network) : World Network := (w.addTask 0 scanQuery "c" "s" 0).2

def started (w : World Network) : Except SchedulerError RunOutcome × World Network :=
  runTask Network.client {} (fun _ => []) w

def scanPlan : Plan where
  stages := []
  scan :=
    { catalog := "c", schema := "s", table := "t", columns := { columns := [⟨"n", .int64⟩] },
      partitions := 1, filters := [] }

/-- The only node of a scan. -/
def scanNode : OperatorNode where
  location := ⟨"lone", "host", 1⟩
  operator := .scan
    { catalog := "c", schema := "s", table := "t", columns := { columns := [⟨"n", .int64⟩] },
      partitions := [0], filters := [] }

def scanTask (id : TaskId) : Task where
  id
  query := scanQuery
  catalog := "c"
  schema := "s"
  plan := some scanPlan
  executorNumber := 1

def scanAssignment (task : TaskId) : Assignment := ⟨scanNode.location, .ofNode task "c" "s" scanNode⟩

theorem compile_scanQuery : compile scanQuery "c" "s" = .ok (scanPlan, 1) := by decide +kernel

theorem withScan_eq {w : World Network} (h : w.scheduler.todos = []) : withScan w =
    { w with scheduler := { w.scheduler with
        nextId := w.scheduler.nextId + 1, todos := [scanTask (w.scheduler.nextId + 1)] } } := by
  have hfirst : TaskList.insert [] (scanTask (w.scheduler.nextId + 1)) =
      [scanTask (w.scheduler.nextId + 1)] :=
    List.perm_singleton.mp (TaskList.insert_perm _ _)
  rw [scanTask] at hfirst
  rw [withScan, addTask, compile_scanQuery]
  simp only [SchedulerState.takeId, SchedulerState.enqueue, h, onScheduler, scanTask, hfirst]

theorem node_scanAssignment (task : TaskId) : (scanAssignment task).instruction.node = .ok scanNode :=
  Instruction.node_ofNode (by decide +kernel) _ _ _

theorem startTask_scan {s : SchedulerState} {id : TaskId} (htodos : s.todos = [scanTask id]) :
    s.startTask {} [scanNode.location] = (.ok (.inr ⟨id, 1000, [scanAssignment id]⟩),
      s.started (scanTask id) [] 1000 ⟨[scanNode], scanNode⟩) := by
  have hsize : scanPlan.maxParallelism 1 1 1000 = some 1000 := by decide +kernel
  have hbind : (scanPlan.bind 1000 [scanNode.location]).1 = .ok ⟨[scanNode], scanNode⟩ := by
    decide +kernel
  have henough : (scanTask id).executorNumber ≤ [scanNode.location].length := Nat.le_refl 1
  exact SchedulerState.startTask_bound htodos rfl henough hsize hbind

section Sending

variable {w : World Network} {v : Worker} {i : Nat} {a : Assignment} {node : OperatorNode}
  (hreach : w.outside.reach a.location = some (.worker i)) (hv : w.outside.workers[i]? = some v)
  (hnode : a.instruction.node = .ok node) (hname : node.location.name = v.location.name)

include hreach hv hnode hname

/-- What an executor makes of an instruction, by the node that it says. -/
theorem perform_send :
    Network.client.perform .sendInstruction a.location a.instruction w =
      match (w.outside.slot i).requireState "send_instruction" [.idle, .done, .failed] with
      | .error e => (.error (.remote e.message), { w with outside := w.outside.settle })
      | .ok _ =>
        let slot := { (w.outside.slot i).reset with
          task := some a.instruction.task, node := some node, state := .received }
        (.ok (), { w with outside := (w.outside.put i slot).settle }) := by
  simp only [Network.client, Network.ask, Network.phaseRequest, Network.call, hreach, hv, Network.handle,
    Network.control, Network.control.acknowledge, Network.update, Slot.receive, hnode, Except.mapError,
    bind, Except.bind, hname, ne_eq, not_true_eq_false, if_false]
  cases (w.outside.slot i).requireState "send_instruction" [.idle, .done, .failed] with
  | error e => rfl
  | ok _ => rfl

end Sending

section Lone

variable {κ : Type} {c : Client κ} {order : Phase → List Nat} {a : Assignment} {w w₁ w₂ w₃ w₄ : κ}

theorem dispatch_lone (hsent : c.perform .sendInstruction a.location a.instruction w = (.ok (), w₁))
    (hwriters : c.perform .setupWriters a.location a.instruction w₁ = (.ok (), w₂))
    (hreaders : c.perform .setupReaders a.location a.instruction w₂ = (.ok (), w₃))
    (hrun : c.perform .run a.location a.instruction w₃ = (.ok (), w₄)) :
    c.dispatch .sequential order [a] w = (.ok (), w₄) := by
  simp only [Client.dispatch, Phase.all, Client.dispatchPhases, Client.callPhase, Client.inSequence, hsent,
    hwriters, hreaders, hrun]

theorem dispatch_lone_refused {e : RpcError}
    (hsent : c.perform .sendInstruction a.location a.instruction w = (.error e, w₁)) :
    c.dispatch .sequential order [a] w =
      (.error ⟨.sendInstruction, a.location, e, [a.location]⟩, w₁) := by
  simp only [Client.dispatch, Phase.all, Client.dispatchPhases, Client.callPhase, Client.inSequence, hsent]
  rfl

end Lone

section Queued

variable {w after : World Network} {s : SchedulerState} {id : TaskId}
  (htodos : w.scheduler.todos = [scanTask id]) (hfree : w.free = [scanNode.location])
  (hbound : w.scheduler.started (scanTask id) [] 1000 ⟨[scanNode], scanNode⟩ = s)

include htodos hfree hbound

theorem started_of_dispatched (hdispatch : Network.client.dispatch .sequential (fun _ => [])
      [scanAssignment id] (w.onScheduler s) = (.ok (), after)) :
    started w =
      (.ok (.dispatched id 1000 1), after.onScheduler (after.scheduler.markDispatched id)) := by
  subst hbound
  rw [started, runTask, hfree, startTask_scan htodos]
  simp only [hdispatch]
  rfl

theorem started_of_refused {e : RpcError} (hsent : Network.client.perform .sendInstruction
      (scanAssignment id).location (scanAssignment id).instruction (w.onScheduler s) = (.error e, after)) :
    (started w).1 = .error (.dispatch id .sendInstruction "lone" e) := by
  subst hbound
  rw [started, runTask, hfree, startTask_scan htodos]
  simp only [dispatch_lone_refused hsent]
  rfl

end Queued

/-- The first scan has been bound. -/
def scheduled : SchedulerState where
  nextId := 1
  allocated := [("lone", 1)]
  doings := [SchedulerState.startedTask (scanTask 1) 1000 ⟨[scanNode], scanNode⟩]

/-- The first scan runs, and waits for its table. -/
def scanning : World Network where
  topology := loneTopology
  scheduler := scheduled.markDispatched 1
  outside := {
    workers := [{
      location := ⟨"lone", "host", 1⟩
      workplace := Network.bareplace
      held := ["t"]
      slot := { epoch := 1, task := some 1, node := some scanNode, state := .running } }]
    jobs := [(0, ⟨1, scanNode, [], []⟩)] }

theorem started_scanning : started (withScan stalled) = (.ok (.dispatched 1 1000 1), scanning) := by
  have hfree : World.free { stalled with scheduler := { nextId := 1, todos := [scanTask 1] } } =
      [scanNode.location] := rfl
  have hbound : SchedulerState.started { nextId := 1, todos := [scanTask 1] } (scanTask 1) [] 1000
      ⟨[scanNode], scanNode⟩ = scheduled := by decide +kernel
  have hsent := perform_send (w := { stalled with scheduler := scheduled }) (i := 0) rfl rfl
    (node_scanAssignment 1) rfl
  rw [withScan_eq rfl]
  exact started_of_dispatched rfl hfree hbound (dispatch_lone hsent rfl rfl rfl)

theorem started_refused :
    (started (withScan (scanning.finishTask 1 false none).2)).1 =
      .error (.dispatch 2 .sendInstruction "lone" (.remote (ExecutorError.notAllowed "send_instruction"
        (.state .running)).message)) := by
  rw [withScan_eq rfl]
  exact started_of_refused rfl rfl rfl (perform_send (i := 0) rfl rfl (node_scanAssignment 2) rfl)

/-- The first scan has started and has been ended from outside, and another one is queued. -/
def stalledTwice : World Network :=
  withScan ((started (withScan stalled)).2.finishTask 1 false none).2

/-- The one executor is free and refuses the second scan, for it still runs the first. -/
theorem stalledTwice_outcome :
    ((started (withScan stalled)).2.finishTask 1 false none).1 = .ok () ∧
    (started (withScan stalled)).2.workers 1 = [("lone", 1)] ∧
    ((started (withScan stalled)).2.finishTask 1 false none).2.scheduler.nextId + 1 ≠ 0 ∧
    (started stalledTwice).1 = .error (.dispatch 2 .sendInstruction "lone"
      (.remote (ExecutorError.notAllowed "send_instruction" (.state .running)).message)) := by
  rw [stalledTwice, started_scanning]
  exact ⟨rfl, rfl, by decide, started_refused⟩

theorem Run.withScan {config : Config} (h : Run config w left) (hnext : w.scheduler.nextId + 1 ≠ 0) :
    Run config (withScan w) left := by
  rw [World.withScan]
  exact h.addTask 0 scanQuery "c" "s" 0 hnext

theorem Run.started (h : Run {} w left) : Run {} (started w).2 left :=
  h.runTask (fun _ => []) Network.client_serves

theorem stalledTwice_run : Run {} stalledTwice [("lone", 1)] := by
  obtain ⟨hok, hworkers, hnext, _⟩ := stalledTwice_outcome
  have hstaff : stalled.outside.Staffs loneTopology := by
    refine ⟨by decide, fun e he => ⟨0, ?_⟩⟩
    obtain rfl := List.mem_singleton.mp he
    exact ⟨by decide, _, rfl, rfl⟩
  have hstart : Run {} stalled [] := .start (by decide) (by decide) hstaff
  have hfinished := (hstart.withScan (by decide)).started.finishTask hok
  rw [hworkers] at hfinished
  exact hfinished.withScan hnext

/-- Executors that `finishTask` gives back have not been told to abort. -/
theorem Run.not_never_refused : ¬ ∀ (config : Config) (w : World Network) (left : List (String × TaskId)),
    Run config w left → ∀ c : Client (World Network), c.Serves → ∀ order task name state,
      (World.runTask c config order w).1 ≠ .error (.dispatch task .sendInstruction name
        (.remote (ExecutorError.notAllowed "send_instruction" (.state state)).message)) := fun h =>
  h {} stalledTwice _ stalledTwice_run _ Network.client_serves _ _ _ _ stalledTwice_outcome.2.2.2

theorem Run.refused_only_if_left_stalled : Run {} stalledTwice [("lone", 1)] ∧ Network.client.Serves ∧
    (World.runTask Network.client {} (fun _ => []) stalledTwice).1 = .error (.dispatch 2 .sendInstruction
      "lone" (.remote (ExecutorError.notAllowed "send_instruction" (.state .running)).message)) ∧
    ∃ v ∈ stalledTwice.outside.workers, v.location ∈ stalledTwice.free ∧ v.location.name = "lone" ∧
      v.slot.AtWork ∧ ∃ earlier, v.slot.task = some earlier ∧
        ("lone", earlier) ∈ [("lone", (1 : TaskId))] :=
  have hrefused := stalledTwice_outcome.2.2.2
  ⟨stalledTwice_run, Network.client_serves, hrefused,
    (Run.refused_only_if_left stalledTwice_run).2 _ Network.client_serves _ _ _ _ hrefused⟩

end Stalled

end World
end QueryCluster
