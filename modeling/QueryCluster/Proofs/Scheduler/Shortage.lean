import QueryCluster.Proofs.Scheduler.Starting

/-!
# What a task waits for

A task waits if fewer executors are free than it needs without parallelism, or than it needs at the
smallest parallelism that is allowed. The answer tells the first number in both cases. So it tells of a
shortage just if no parallelism is asked for.
-/
namespace QueryCluster

theorem Plan.exists_executorCount (plan : Plan) {p : UInt64} (hp : p ≠ 0) :
    ∃ n, plan.executorCount p = .ok n := ⟨_, if_neg hp⟩

theorem Plan.lt_of_maxParallelism_eq_none {plan : Plan} {config : Config} {free : Nat}
    (hfree : free < 2 ^ 64) (hvalid : config.validate = .ok ())
    (h : plan.maxParallelism (.ofNat free) config.minParallelism config.maxParallelism = none)
    {needed : UInt64} (hneeded : plan.executorCount (.ofNat config.minParallelism) = .ok needed) :
    free < needed.toNat := by
  obtain ⟨_, hrange, _⟩ := Config.validate_ok.mp hvalid
  rw [maxParallelism, Config.max_minParallelism hvalid] at h
  by_contra henough
  refine absurd h ?_
  have hfits : plan.fits (.ofNat free) config.minParallelism := by
    refine fits_iff.mpr ⟨needed, hneeded, UInt64.le_iff_toNat_le.mpr ?_⟩
    rw [UInt64.toNat_ofNat_of_lt' hfree]
    omega
  simp [hfits, Nat.not_lt.mpr hrange]

namespace SchedulerState

/-- What waits is the first task of the queue, and there was no parallelism for it. -/
theorem startTask_eq_waiting {s s' : SchedulerState} {config : Config} {free : List Location}
    {id : TaskId} {required n : Nat} (hcounted : ∀ t ∈ s.todos, t.Counted)
    (h : s.startTask config free = (.ok (.inl (.waiting id required n)), s')) :
    s' = s ∧ n = free.length ∧ ∃ task todos plan, s.todos = task :: todos ∧ task.plan = some plan ∧
      id = task.id ∧ required = task.executorNumber ∧ (free.length < task.executorNumber ∨
        plan.maxParallelism (.ofNat free.length) config.minParallelism config.maxParallelism = none) := by
  rcases htodos : s.todos with _ | ⟨task, todos⟩
  · rw [startTask_idle htodos] at h
    cases h
  obtain ⟨plan, _, hplan, _⟩ := hcounted task (htodos ▸ List.mem_cons_self)
  by_cases hfew : free.length < task.executorNumber
  · rw [startTask_few htodos hfew] at h
    cases h
    exact ⟨rfl, rfl, task, todos, plan, rfl, hplan, rfl, rfl, .inl hfew⟩
  have henough := Nat.le_of_not_lt hfew
  rcases hsize : plan.maxParallelism (.ofNat free.length) config.minParallelism config.maxParallelism
    with _ | p
  · rw [startTask_unsized htodos hplan henough hsize] at h
    cases h
    exact ⟨rfl, rfl, task, todos, plan, rfl, hplan, rfl, rfl, .inr hsize⟩
  rcases hbind : (plan.bind (.ofNat p) free).1 with e | g
  · rw [startTask_unbound htodos hplan henough hsize hbind] at h
    cases h
  · rw [startTask_bound htodos hplan henough hsize hbind] at h
    cases h

end SchedulerState

section Waiting

variable {κ : Type} {c : Client (World κ)} {order : Phase → List Nat} {outside : κ} {config : Config}

/-- In a state that can be reached, an attempt answers that a task waits. -/
structure Waits (c : Client (World κ)) (order : Phase → List Nat) (outside : κ) (config : Config)
    (x : Usage) (id : TaskId) (required free : Nat) (w' : World κ) : Prop where
  reached : ∃ topology, Usage.Steps config (.start topology) x
  executors : x.topology.length < 2 ^ 64
  waits : World.runTask c config order (x.world outside) = (.ok (.waiting id required free), w')

variable {x : Usage} {id : TaskId} {required free : Nat} {w' : World κ}

theorem World.runTask_eq_waiting {w : World κ}
    (h : runTask c config order w = (.ok (.waiting id required free), w')) :
    w.scheduler.startTask config w.free = (.ok (.inl (.waiting id required free)), w'.scheduler) ∧
      w' = w.onScheduler w'.scheduler := by
  rw [runTask] at h
  rcases hstart : w.scheduler.startTask config w.free with ⟨e | outcome | start, s⟩ <;>
    rw [hstart] at h <;> simp only at h
  · cases h
  · cases h
    exact ⟨rfl, rfl⟩
  · split at h <;> cases h

theorem Waits.short (h : Waits c order outside config x id required free w')
    (hvalid : config.validate = .ok ()) (hword : config.maxParallelism < 2 ^ 64) :
    w' = x.world outside ∧ free = (x.world outside).free.length ∧ ∃ task todos plan one needed,
      x.scheduler.todos = task :: todos ∧ id = task.id ∧ task.plan = some plan ∧
      plan.executorCount 1 = .ok one ∧ required = one.toNat ∧
      plan.executorCount (.ofNat config.minParallelism) = .ok needed ∧
      (free < required ∨ free < needed.toNat) := by
  obtain ⟨hmin, hrange, _⟩ := Config.validate_ok.mp hvalid
  obtain ⟨_, hx⟩ := h.reached
  obtain ⟨hstart, hw'⟩ := World.runTask_eq_waiting h.waits
  obtain ⟨hs', rfl, task, todos, plan, htodos, hplan, rfl, rfl, hshort⟩ :=
    SchedulerState.startTask_eq_waiting hx.sound.counted hstart
  obtain ⟨plan', one, hplan', hone, hnumber⟩ := hx.sound.counted task (htodos ▸ List.mem_cons_self)
  obtain rfl : plan = plan' := Option.some.inj (hplan.symm.trans hplan')
  obtain ⟨needed, hneeded⟩ := plan.exists_executorCount (Plan.ofNat_ne_zero hmin (by omega))
  have hfree : (x.world outside).free.length < 2 ^ 64 :=
    Nat.lt_of_le_of_lt (x.scheduler.length_free_le x.topology) h.executors
  exact ⟨by rw [hw', hs']; rfl, rfl, task, todos, plan, one, needed, htodos, rfl, hplan, hone, hnumber,
    hneeded, hshort.imp_right fun hnone => Plan.lt_of_maxParallelism_eq_none hfree hvalid hnone hneeded⟩

/-! A scan of two partitions takes one executor without parallelism, and three with any: one for each
partition, and one that gathers their rows. Two are free. -/

def bisectedPlan : Plan where
  stages := []
  scan :=
    { catalog := "c", schema := "s", table := "t", columns := { columns := [⟨"n", .int64⟩] },
      partitions := 2, filters := [] }

def bisectedTask : Task :=
  { id := 1, catalog := "c", schema := "s", plan := some bisectedPlan, executorNumber := 1 }

def bisectedHosts : List Location := [⟨"a", "host", 1⟩, ⟨"b", "host", 1⟩]

def bisectedUsage : Usage := (Usage.start (.ofLocations bisectedHosts)).admitted bisectedPlan

theorem bisectedPlan_executorCount {p : Nat} (hp : 2 ≤ p) (hword : p < 2 ^ 64) :
    bisectedPlan.executorCount (.ofNat p) = .ok 3 := by
  have hwidth : Plan.scanWidth bisectedPlan.scan (.ofNat p) = 2 := by
    have hle : (2 : UInt64) ≤ .ofNat p := Plan.ofNat_mono hp hword
    rw [Plan.scanWidth, show ∀ a b : UInt64, min a b = if a ≤ b then a else b from fun _ _ => rfl]
    split
    · exact UInt64.le_antisymm ‹_› hle
    · rfl
  rw [Plan.executorCount, if_neg (Plan.ofNat_ne_zero (by omega) hword)]
  simp only [Plan.extent, bisectedPlan, Plan.extentOf] at hwidth ⊢
  rw [hwidth]
  rfl

theorem bisectedUsage_waits (hvalid : config.validate = .ok ()) (hword : config.maxParallelism < 2 ^ 64)
    (hmin : 2 ≤ config.minParallelism) :
    Waits c order outside config bisectedUsage 1 1 2 (bisectedUsage.world outside) where
  reached := ⟨_, Usage.steps_admitted _ bisectedPlan (by decide)⟩
  executors := by decide
  waits := by
    obtain ⟨_, hrange, _⟩ := Config.validate_ok.mp hvalid
    have htodos : bisectedUsage.scheduler.todos = [bisectedTask] := by decide +kernel
    have hfree : bisectedUsage.scheduler.free bisectedUsage.topology = bisectedHosts := by decide +kernel
    have hunfit : bisectedPlan.fits 2 config.minParallelism = false := by
      simp only [Plan.fits, bisectedPlan_executorCount hmin (by omega)]
      decide
    have hsize : bisectedPlan.maxParallelism 2 config.minParallelism config.maxParallelism = none := by
      rw [Plan.maxParallelism, Config.max_minParallelism hvalid]
      exact if_pos (by rw [hunfit, Bool.not_false, Bool.or_true])
    refine World.runTask_unstarted c ?_
    rw [show (bisectedUsage.world outside).free = bisectedHosts from hfree]
    exact SchedulerState.startTask_unsized htodos rfl (by decide) hsize

/-- Whenever an attempt answers that a task waits, nothing has changed, and fewer executors are free than
the task needs at the smallest parallelism or without any, which is the number in the answer. That number
is larger than that of the free executors in all states just if the smallest parallelism is one. -/
theorem waits_short (c : Client (World κ)) (order : Phase → List Nat) (outside : κ)
    (hvalid : config.validate = .ok ()) (hword : config.maxParallelism < 2 ^ 64) :
    (∀ x id required free w', Waits c order outside config x id required free w' →
      w' = x.world outside ∧ free = (x.world outside).free.length ∧ ∃ task todos plan one needed,
        x.scheduler.todos = task :: todos ∧ id = task.id ∧ task.plan = some plan ∧
        plan.executorCount 1 = .ok one ∧ required = one.toNat ∧
        plan.executorCount (.ofNat config.minParallelism) = .ok needed ∧
        (free < required ∨ free < needed.toNat)) ∧
    ((∀ x id required free w', Waits c order outside config x id required free w' → free < required) ↔
      config.minParallelism = 1) := by
  obtain ⟨hmin, _⟩ := Config.validate_ok.mp hvalid
  refine ⟨fun x id required free w' h => h.short hvalid hword, fun h => ?_,
    fun hone x id required free w' h => ?_⟩
  · by_contra hne
    exact absurd (h _ _ _ _ _ (bisectedUsage_waits hvalid hword (by omega))) (by decide)
  · obtain ⟨_, _, _, _, plan, one, needed, _, _, _, hcount, hrequired, hneeded, hshort⟩ :=
      h.short hvalid hword
    rw [hone] at hneeded
    obtain rfl : one = needed := Except.ok.inj (hcount.symm.trans hneeded)
    rw [hrequired] at hshort ⊢
    exact or_self_iff.mp hshort

def spreadConfig : Config := { minParallelism := 2 }

theorem waits_short_bisected :
    Config.validate {} = .ok () ∧ Config.validate spreadConfig = .ok () ∧
      (∀ x id required free w', Waits Recorder.client (fun _ => []) {} {} x id required free w' →
        free < required) ∧
      ∃ needed : UInt64, bisectedPlan.executorCount 2 = .ok needed ∧ 2 < needed.toNat := by
  have hdefault : Config.validate {} = .ok () := by decide
  have hspread : Config.validate spreadConfig = .ok () := by decide
  have hone := (waits_short Recorder.client (fun _ => []) ({} : Recorder) hdefault (by decide)).2.mpr rfl
  obtain ⟨hshort, _⟩ := waits_short Recorder.client (fun _ => []) ({} : Recorder) hspread (by decide)
  obtain ⟨_, _, task, todos, plan, one, needed, htodos, _, hplan, hcount, hrequired, hneeded, hfew⟩ :=
    hshort _ _ _ _ _ (bisectedUsage_waits hspread (by decide) (by decide))
  have hqueue : bisectedUsage.scheduler.todos = [bisectedTask] := by decide +kernel
  obtain ⟨rfl, _⟩ := List.cons.inj (hqueue.symm.trans htodos)
  cases hplan
  exact ⟨hdefault, hspread, hone, needed, hneeded, hfew.resolve_left (by decide)⟩

/-- With two executors free the task waits although the answer says that it needs one. -/
theorem not_waits_short :
    ¬ (∀ (config : Config), config.validate = .ok () → config.maxParallelism < 2 ^ 64 →
      ∀ x id required free w', Waits Recorder.client (fun _ => []) {} config x id required free w' →
        free < required) ∧
    World.runTask Recorder.client spreadConfig (fun _ => []) (bisectedUsage.world {}) =
      (.ok (.waiting 1 1 2), bisectedUsage.world {}) := by
  have hwaits := @bisectedUsage_waits Recorder Recorder.client (fun _ => []) {} spreadConfig (by decide)
    (by decide) (by decide)
  refine ⟨fun h => ?_, hwaits.waits⟩
  exact absurd (h spreadConfig (by decide) (by decide) _ _ _ _ _ hwaits) (by decide)

end Waiting
end QueryCluster
