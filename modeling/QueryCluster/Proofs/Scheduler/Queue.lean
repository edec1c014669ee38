import QueryCluster.Proofs.Scheduler.Starting

/-!
# The queue is in order of priority

Tasks get their numbers and come into the queue in different sections, so they may come in any order. A
task goes to the place that bisection finds for it, and that is its place because the queue was in order
before: every section leaves the queue as it is, takes its first task away, or puts one task between
those that go before it and those that go after it.
-/
namespace QueryCluster

section Bisection

/-- Above the place found nothing passes, if whatever passes stands in front. -/
theorem narrow_spec {test : Nat → Bool} (hdown : ∀ i j, i ≤ j → test j → test i) (base size : Nat) :
    base ≤ narrow test base size ∧
      ∀ i, narrow test base size < i → i < base + size → test i = false := by
  fun_induction narrow test base size with
  | case1 base size hsize => exact ⟨Nat.le_refl _, fun i hlt hi => absurd hi (by omega)⟩
  | case2 base size hsize ih =>
    by_cases hmid : test (base + size / 2)
    · simp only [dif_pos hmid, if_pos hmid] at ih ⊢
      exact ⟨by omega, fun i hlt hi => ih.2 i hlt (by omega)⟩
    · simp only [dif_neg hmid, if_neg hmid] at ih ⊢
      refine ⟨ih.1, fun i hlt hi => ?_⟩
      by_cases hfront : i < base + (size - size / 2)
      · exact ih.2 i hlt hfront
      · exact Bool.eq_false_iff.mpr fun hi => hmid (hdown _ i (by omega) hi)

/-- Bisection parts what passes from what does not, if whatever passes stands in front. -/
theorem partitionPoint_spec {α : Type} {test : α → Bool} {as : List α}
    (h : as.Pairwise fun a b => test b → test a) :
    (∀ a ∈ as.take (partitionPoint test as), test a) ∧
      ∀ a ∈ as.drop (partitionPoint test as), test a = false := by
  let passes (i : Nat) : Bool := as[i]?.any test
  have hpasses : ∀ i (hi : i < as.length), passes i = test as[i] := fun i hi => by
    simp only [passes, List.getElem?_eq_getElem hi, Option.any_some]
  have hshort : ∀ i, passes i → i < as.length := fun i hi => by
    by_contra hlong
    simp [passes, Nat.not_lt.mp hlong] at hi
  have hdown : ∀ i j, i ≤ j → passes j → passes i := by
    intro i j hij hj
    rcases Nat.eq_or_lt_of_le hij with rfl | hlt
    · exact hj
    have hjlength := hshort j hj
    rw [hpasses j hjlength] at hj
    rw [hpasses i (by omega)]
    exact List.pairwise_iff_getElem.mp h i j (by omega) hjlength hlt hj
  obtain ⟨_, habove⟩ := narrow_spec hdown 0 as.length
  by_cases hlast : passes (narrow passes 0 as.length)
  · have hpoint : partitionPoint test as = narrow passes 0 as.length + 1 := if_pos hlast
    rw [hpoint]
    refine ⟨fun a ha => ?_, fun a ha => ?_⟩
    · obtain ⟨i, hi, rfl⟩ := List.mem_take_iff_getElem.mp ha
      rw [← hpasses i (by omega)]
      exact hdown i _ (by omega) hlast
    · obtain ⟨i, hi, rfl⟩ := List.mem_drop_iff_getElem.mp ha
      rw [← hpasses _ (by omega)]
      exact habove _ (by omega) (by omega)
  · have hpoint : partitionPoint test as = narrow passes 0 as.length := if_neg hlast
    have hzero : narrow passes 0 as.length = 0 := (narrow_passes passes 0 as.length).resolve_right hlast
    rw [hpoint, hzero]
    refine ⟨by simp, fun a ha => ?_⟩
    obtain ⟨i, hi, rfl⟩ := List.mem_iff_getElem.mp (List.drop_zero (l := as) ▸ ha)
    rw [← hpasses i hi]
    rcases Nat.eq_zero_or_pos i with rfl | hpos
    · rwa [hzero, Bool.not_eq_true] at hlast
    · exact habove i (by omega) (by omega)

theorem insertIdx_eq_append {α : Type} (as : List α) {k : Nat} (h : k ≤ as.length) (a : α) :
    as.insertIdx k a = as.take k ++ a :: as.drop k := by
  induction k generalizing as with
  | zero => rfl
  | succ k ih =>
    cases as with
    | nil => cases h
    | cons b bs => rw [List.insertIdx_succ_cons, ih bs (Nat.le_of_succ_le_succ h)]; rfl

end Bisection

/-- One task goes before another: the one of higher priority, of equal ones the one that was admitted
earlier, and of those the one with the smaller number. -/
def Task.Before (a b : Task) : Prop :=
  b.priority < a.priority ∨ a.priority = b.priority ∧
    (a.committed < b.committed ∨ a.committed = b.committed ∧ a.id < b.id)

namespace Task.Before

variable {a b c : Task}

theorem iff_schedule_gt : b.Before a ↔ a.schedule b = .gt := by
  simp only [Before, schedule, Ordering.then_eq_gt, compare_gt_iff_gt, compare_eq_iff_eq,
    UInt64.lt_iff_toNat_lt, eq_comm (a := a.committed)]

theorem trans (hab : a.Before b) (hbc : b.Before c) : a.Before c := by
  simp only [Before, UInt64.lt_iff_toNat_lt] at *
  omega

/-- Numbers tell tasks apart, so the order is strict and total. -/
theorem of_not (hid : a.id ≠ b.id) (h : ¬ a.Before b) : b.Before a := by
  have hid : a.id.toNat ≠ b.id.toNat := fun heq => hid (UInt64.toNat_inj.mp heq)
  simp only [Before, UInt64.lt_iff_toNat_lt] at *
  omega

end Task.Before

namespace TaskList

variable {l : TaskList} {t : Task}

/-- In a queue in order, a task goes behind those that go before it and in front of all others. -/
theorem insert_between (h : l.Pairwise Task.Before) (hid : ∀ u ∈ l, u.id ≠ t.id) :
    ∃ front back, l = front ++ back ∧ l.insert t = front ++ t :: back ∧
      (∀ a ∈ front, a.Before t) ∧ ∀ b ∈ back, t.Before b := by
  let earlier (u : Task) : Bool := u.schedule t ≠ .gt
  have hearlier : ∀ u, earlier u = false ↔ t.Before u := fun u => by
    simp only [earlier, Task.Before.iff_schedule_gt, decide_eq_false_iff_not, not_not]
  have hdown : l.Pairwise fun a b => earlier b → earlier a := h.imp fun {a b} hab hb => by
    rw [← Bool.not_eq_false, hearlier] at hb ⊢
    exact fun hta => hb (hta.trans hab)
  obtain ⟨hfront, hback⟩ := partitionPoint_spec hdown
  refine ⟨_, _, (List.take_append_drop (partitionPoint earlier l) l).symm,
    insertIdx_eq_append l (partitionPoint_le _ _) t, fun a ha => ?_, fun b hb => ?_⟩
  · refine Task.Before.of_not (hid a (List.mem_of_mem_take ha)).symm fun hta => ?_
    rw [← hearlier, hfront a ha] at hta
    cases hta
  · exact (hearlier b).mp (hback b hb)

/-- What one section may do to a queue: nothing, take its first task away, or put a task at its place. -/
inductive Moves : TaskList → TaskList → Prop
  | stay (l : TaskList) : Moves l l
  | leave (t : Task) (l : TaskList) : Moves (t :: l) l
  | enter {front back : TaskList} {t : Task} (hfront : ∀ a ∈ front, a.Before t)
      (hback : ∀ b ∈ back, t.Before b) : Moves (front ++ back) (front ++ t :: back)

theorem Moves.pairwise {l' : TaskList} (h : Moves l l') (hl : l.Pairwise Task.Before) :
    l'.Pairwise Task.Before := by
  cases h with
  | stay => exact hl
  | leave t => exact (List.pairwise_cons.mp hl).2
  | @enter front back t hfront hback =>
    obtain ⟨hpre, hpost, hacross⟩ := List.pairwise_append.mp hl
    refine List.pairwise_append.mpr ⟨hpre, List.pairwise_cons.mpr ⟨hback, hpost⟩, fun a ha b hb => ?_⟩
    rcases List.mem_cons.mp hb with rfl | hb
    · exact hfront a ha
    · exact hacross a ha b hb

end TaskList

open TaskList (Moves)

/-- A section that files no task leaves the queue or takes its first task out of it. -/
theorem Locked.moves {config : Config} {topology : Topology} {before after : Option Underway}
    {s s' : SchedulerState} (h : Locked config topology before s after s')
    (hadmits : before.bind Underway.admits = none) : Moves s.todos s'.todos := by
  have hended : ∀ {id} {s' : SchedulerState}, s.Ended id s' → Moves s.todos s'.todos :=
    fun he => he.todos ▸ .stay _
  cases h with
  | issue | dispatched | release | poll | pass | polled | locate | store | missed => exact .stay _
  | enqueue => cases hadmits
  | start =>
    have hattempt := s.startTask_attempt config (s.free topology)
    generalize Underway.ofStart (s.startTask config (s.free topology)).1 = call at hattempt
    generalize (s.startTask config (s.free topology)).2 = s' at hattempt
    cases hattempt with
    | idle => exact .stay _
    | refused htodos | started htodos => exact htodos ▸ .leave _ _
  | undispatched id fault =>
    rcases (s.failDispatch_cases id fault config.abortOnDispatchFailure).2 with ⟨he, _⟩ | ⟨_, heq⟩
    · exact hended he
    · rw [heq]
      exact .stay _
  | finish h | close h => exact hended (SchedulerState.finish_ok h).1

namespace Usage

variable {config : Config} {topology : Topology} {x y : Usage}

theorem Sound.fresh_id (hx : x.Sound) {task : Task} (h : .admission task ∈ x.calls) :
    ∀ t ∈ x.scheduler.todos, t.id ≠ task.id := by
  intro t ht heq
  have hwaiting : task.id ∈ x.waiting := List.mem_filterMap.mpr ⟨_, h, rfl⟩
  have hfiled : t.id ∈ x.scheduler.ids :=
    List.mem_map_of_mem (SchedulerState.mem_tasks.mpr ⟨.todo, ht⟩)
  exact (List.nodup_append.mp hx.filed.unique).2.2 _ hfiled _ hwaiting heq

/-- A task that compiled goes to its place in a queue in order. -/
theorem Sound.enqueue_between (hx : x.Sound) (hsorted : x.scheduler.todos.Pairwise Task.Before)
    {task : Task} (h : .admission task ∈ x.calls) (plan : Plan) (needed : Nat) :
    ∃ front back, x.scheduler.todos = front ++ back ∧
      (x.scheduler.enqueue task (.ok (plan, needed))).2.todos =
        front ++ { task with plan := some plan, executorNumber := needed } :: back ∧
      (∀ a ∈ front, a.Before task) ∧ ∀ b ∈ back, task.Before b :=
  TaskList.insert_between (t := { task with plan := some plan, executorNumber := needed }) hsorted
    fun t ht => hx.fresh_id h t ht

theorem Sound.moves (hx : x.Sound) (hsorted : x.scheduler.todos.Pairwise Task.Before)
    (h : Step config x y) : Moves x.scheduler.todos y.scheduler.todos := by
  cases h with
  | locked _ _ _ h hadmits => exact h.moves hadmits
  | release | topology => exact .stay _
  | @enter s t front back reclaimed task compiled =>
    rcases compiled >>= World.counted with e | ⟨plan, needed⟩
    · exact .stay _
    · have hcall : .admission task ∈ front ++ [.admission task] ++ back := by simp
      obtain ⟨front', back', hold, hnew, hfront, hback⟩ := hx.enqueue_between hsorted hcall plan needed
      show Moves s.todos (s.enqueue task (.ok (plan, needed))).2.todos
      rw [show s.todos = front' ++ back' from hold, hnew]
      exact .enter hfront hback

theorem Sound.pairwise_steps (hx : x.Sound) (hsorted : x.scheduler.todos.Pairwise Task.Before)
    (h : Steps config x y) : y.scheduler.todos.Pairwise Task.Before := by
  induction h with
  | refl => exact hsorted
  | tail hsteps hstep ih => exact ((hx.steps hsteps).moves ih hstep).pairwise ih

end Usage

namespace SchedulerState

variable {s s' : SchedulerState} {config : Config} {free : List Location}

theorem startTask_unstarted {outcome : RunOutcome}
    (h : s.startTask config free = (.ok (.inl outcome), s')) (id : TaskId) (p n : Nat) :
    outcome ≠ .dispatched id p n := by
  rintro rfl
  rw [startTask] at h
  split at h
  · cases h
  dsimp only at h
  split at h
  · cases h
  split at h
  · cases h
  split at h
  · cases h
  split at h <;> cases h

theorem start_least {start : Start} (hsorted : s.todos.Pairwise Task.Before)
    (h : s.startTask config free = (.ok (.inr start), s')) :
    ∃ task, s.todos = task :: s'.todos ∧ task.id = start.task ∧ ∀ t ∈ s'.todos, task.Before t := by
  obtain ⟨task, _, todos, _, _, _, htodos, _, hid, _, _, _, rfl⟩ := startTask_eq_ok h
  rw [htodos] at hsorted
  exact ⟨task, htodos, hid.symm, (List.pairwise_cons.mp hsorted).1⟩

end SchedulerState

/-- The task that an answer tells was started, also if its dispatch failed. -/
def startedBy : Except SchedulerError RunOutcome → Option TaskId
  | .ok (.dispatched id _ _) => some id
  | .error (.dispatch id _ _ _) => some id
  | _ => none

namespace World

variable {κ : Type} {c : Client (World κ)} {config : Config} {order : Phase → List Nat} {w : World κ}

theorem startedBy_carryOut (start : Start) :
    startedBy (carryOut c config order start w).1 = some start.task := by
  rw [carryOut]
  rcases c.dispatch config.dispatchMode order start.nodes w with ⟨f | _, w'⟩
  · rfl
  · rfl

theorem start_of_startedBy {id : TaskId} (h : startedBy (runTask c config order w).1 = some id) :
    ∃ start s, w.scheduler.startTask config w.free = (.ok (.inr start), s) ∧ start.task = id := by
  rcases hstart : w.scheduler.startTask config w.free with ⟨e | outcome | start, s⟩
  · simp only [runTask, hstart] at h
    have hother := SchedulerState.startTask_eq_error hstart
    cases e <;> simp only [startedBy, reduceCtorEq] at h
    exact (hother _ _ _ _ rfl).elim
  · simp only [runTask, hstart] at h
    have hother := SchedulerState.startTask_unstarted hstart
    cases outcome <;> simp only [startedBy, reduceCtorEq] at h
    exact (hother _ _ _ rfl).elim
  · rw [runTask_started c hstart, startedBy_carryOut] at h
    exact ⟨start, s, rfl, Option.some.inj h⟩

end World

/-- Whatever calls are under way, the queue is strictly in order of priority, then of admission, then of
number. A section leaves it, takes its first task, or puts one task at its place among the others, which
keep theirs; and a task that starts goes before all others that are queued. -/
theorem todos_by_priority {config : Config} {topology : Topology} {x : Usage}
    (hx : Usage.Steps config (.start topology) x) :
    x.scheduler.todos.Pairwise Task.Before ∧
      (∀ y, Usage.Step config x y → Moves x.scheduler.todos y.scheduler.todos) ∧
      (∀ task, .admission task ∈ x.calls → ∀ plan needed, ∃ front back,
        x.scheduler.todos = front ++ back ∧
        (x.scheduler.enqueue task (.ok (plan, needed))).2.todos =
          front ++ { task with plan := some plan, executorNumber := needed } :: back ∧
        (∀ a ∈ front, a.Before task) ∧ ∀ b ∈ back, task.Before b) ∧
      (∀ start s', x.scheduler.startTask config (x.scheduler.free x.topology) =
          (.ok (.inr start), s') →
        ∃ task, x.scheduler.todos = task :: s'.todos ∧ task.id = start.task ∧
          ∀ t ∈ s'.todos, task.Before t) ∧
      ∀ {κ : Type} (c : Client (World κ)) (order : Phase → List Nat) (outside : κ) (id : TaskId),
        startedBy (World.runTask c config order (x.world outside)).1 = some id →
        ∃ task ∈ x.scheduler.todos, task.id = id ∧
          ∀ t ∈ x.scheduler.todos, t ≠ task → task.Before t := by
  have hsorted := (Usage.sound_start topology).pairwise_steps List.Pairwise.nil hx
  refine ⟨hsorted, fun y => hx.sound.moves hsorted, fun task h => hx.sound.enqueue_between hsorted h,
    fun start s' => SchedulerState.start_least hsorted, fun c order outside id h => ?_⟩
  obtain ⟨start, s', hstart, rfl⟩ := World.start_of_startedBy h
  obtain ⟨task, htodos, hid, hleast⟩ := SchedulerState.start_least hsorted hstart
  have htodos : x.scheduler.todos = task :: s'.todos := htodos
  refine ⟨task, htodos ▸ List.mem_cons_self, hid, fun t ht hne => ?_⟩
  rw [htodos] at ht
  exact hleast t ((List.mem_cons.mp ht).resolve_left hne)

section Latecomers

/-! Three tasks that come into the queue as first, third and second. The second was admitted before the
first, and the third goes before both. -/

def lateTask (id : TaskId) (priority : Int) (committed : Nat) : Task :=
  { id, catalog := "c", schema := "s", priority, committed }

def lateQueue : SchedulerState :=
  [lateTask 1 0 5, lateTask 3 7 9, lateTask 2 0 3].foldl
    (fun s task => (s.enqueue task (World.counted Shared.lonePlan)).2) { nextId := 3 }

theorem todos_by_priority_latecomers :
    ∃ x, Usage.Steps {} (.start Shared.loneTopology) x ∧ x.scheduler.todos.map (·.id) = [3, 2, 1] ∧
      x.scheduler.todos.Pairwise Task.Before ∧ ∃ task ∈ x.scheduler.todos, task.id = 3 ∧
        ∀ t ∈ x.scheduler.todos, t ≠ task → task.Before t := by
  have hissue := fun (s : SchedulerState) calls (priority : Int) time (h : s.nextId + 1 ≠ 0) =>
    Usage.Step.locked calls [] [] (@Locked.issue {} Shared.loneTopology s "" "c" "s" priority time h) rfl
  have henter := fun (s : SchedulerState) front back task =>
    @Usage.Step.enter {} s Shared.loneTopology front back [] task (.ok Shared.lonePlan)
  have hsteps : Usage.Steps {} (.start Shared.loneTopology)
      ⟨lateQueue, Shared.loneTopology, [], []⟩ :=
    .tail (.tail (.tail (.tail (.tail (.single (hissue {} [] 0 5 (by decide)))
      (hissue { nextId := 1 } [.admission (lateTask 1 0 5)] 0 3 (by decide)))
      (hissue { nextId := 2 } [.admission (lateTask 1 0 5), .admission (lateTask 2 0 3)] 7 9
        (by decide)))
      (henter { nextId := 3 } [] [.admission (lateTask 2 0 3), .admission (lateTask 3 7 9)]
        (lateTask 1 0 5)))
      (henter _ [.admission (lateTask 2 0 3)] [] (lateTask 3 7 9)))
      (henter _ [] [] (lateTask 2 0 3))
  obtain ⟨hsorted, _, _, _, hstarts⟩ := todos_by_priority hsteps
  exact ⟨_, hsteps, by decide +kernel, hsorted,
    hstarts Recorder.client (fun _ => []) ({} : Recorder) 3 (by decide +kernel)⟩

end Latecomers

end QueryCluster
