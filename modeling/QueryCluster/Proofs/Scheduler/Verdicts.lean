import QueryCluster.Proofs.Scheduler.Marking
import QueryCluster.Proofs.Scheduler.Polling

/-!
# Tasks are filed by what their executors say

The turns of a poll are steps among those of all others. The rows with which a poll files a task as done stay
with it: they are in the store from then on, and nobody is on the way to fetch others, for who fetches rows has
seen the task done before. Main statement: a poll takes a turn for each running task whose dispatch has come to
an end, files the task by what its own executors say, and tells which tasks it has filed; and the rows of those
that are done are what is given to whoever asks for them later.
-/
namespace QueryCluster

open SchedulerState (Filed)

/-! ## Rows that stay -/

/-- A task is done, its rows are stored, and nobody is about to store others. -/
structure Ledger.Keeps (x : Ledger) (id : TaskId) (rows : Split) : Prop where
  done : ∃ t ∈ x.scheduler.dones, t.id = id
  stored : x.scheduler.results.lookup id = some rows
  alone : .fetch id ∉ x.calls

section Keeping

variable {config : Config} {topology : Topology} {before after : Option Underway}
  {s s' : SchedulerState} {g g' : Record} {id : TaskId} {rows : Split}

/-- A task that runs is neither done nor failed. -/
theorem SchedulerState.doings_ended {waiting : List TaskId} (hfiled : Filed waiting s) {t u : Task}
    (ht : t ∈ s.doings) (hu : u ∈ s.dones) : t.id ≠ u.id := by
  intro h
  have hsame := SchedulerState.eq_of_id (i := .doing) (j := .done) (List.nodup_append.mp hfiled.unique).1 ht hu h
  have hdoing := hfiled.status .doing t ht
  rw [hsame, hfiled.status .done u hu] at hdoing
  cases hdoing

/-- Who is on the way to fetch rows has found none in the store. -/
theorem Locked.lookup_of_fetch (h : Locked config topology before s after s') (hafter : .fetch id ∈ after) :
    s.results.lookup id = none := by
  cases h with
  | start =>
    obtain ⟨id, heq⟩ := Underway.mem_ofStart hafter
    cases heq
  | locate h =>
    cases hafter
    cases hlookup : s.results.lookup id with
    | none => rfl
    | some rows =>
      rw [SchedulerState.locateResults, hlookup] at h
      cases h
  | _ => cases hafter

/-- Rows that are stored for a task are not replaced by an entry about another. -/
theorem Entry.lookup_eq {waiting : List TaskId} (h : Entry config topology before s g after s' g')
    (hfiled : Filed waiting s) (hdone : ∃ t ∈ s.dones, t.id = id) (halone : .fetch id ∉ before) :
    s'.results.lookup id = s.results.lookup id := by
  cases h with
  | locked _ hkept => rw [hkept]
  | release | answer | locate | reread => rfl
  | close _ _ h =>
    obtain ⟨task, doings, htake, rfl⟩ := SchedulerState.finish_eq_ok h
    obtain ⟨htask, hperm⟩ := TaskList.take?_ok htake
    obtain ⟨t, ht, rfl⟩ := hdone
    have hne := SchedulerState.doings_ended hfiled (hperm.mem_iff.mpr List.mem_cons_self) ht
    exact SchedulerState.lookup_store _ _ fun heq => hne (htask.trans heq.symm)
  | store => exact SchedulerState.lookup_store _ _ fun heq => halone (heq ▸ rfl)

end Keeping

namespace Ledger

variable {config : Config} {x y : Ledger} {id : TaskId} {rows : Split}

theorem Keeps.step (hk : x.Keeps id rows) (hx : x.Sound) (h : Step config x y) : y.Keeps id rows := by
  obtain ⟨t, ht, hid⟩ := hk.done
  have hdone : ∃ t ∈ y.scheduler.dones, t.id = id := ⟨t, h.advances.dones.subset ht, hid⟩
  cases h with
  | topology => exact ⟨hk.done, hk.stored, hk.alone⟩
  | @entry s s' _ before after g g' front back h =>
    obtain ⟨hbefore, hothers⟩ := Shared.forall_calls.mp fun c hc => (ne_of_mem_of_not_mem hc hk.alone)
    refine ⟨hdone, ?_, fun hmem => ?_⟩
    · exact (h.lookup_eq hx.filed hk.done fun hmem => hbefore _ hmem rfl).trans hk.stored
    · refine Shared.forall_calls.mpr ⟨fun c hc heq => ?_, hothers⟩ _ hmem rfl
      subst heq
      rcases h.locked_or with hlocked | ⟨_, rfl, _⟩
      · have hnone := hlocked.lookup_of_fetch hc
        rw [hk.stored] at hnone
        cases hnone
      · cases hc

theorem Keeps.steps (hk : x.Keeps id rows) (hx : x.Sound) (h : Steps config x y) : y.Keeps id rows := by
  induction h with
  | refl => exact hk
  | tail hsteps hstep ih => exact ih.step (hx.steps hsteps) hstep

theorem Keeps.fetchResults {κ : Type} (hk : x.Keeps id rows) (c : Client (World κ)) {w : World κ}
    (hw : w.scheduler = x.scheduler) : World.fetchResults c id w = (.ok rows, w) := by
  rw [World.fetchResults, SchedulerState.locateResults, hw, hk.stored]

end Ledger

/-! ## Turns among the steps of others -/

section Turns

variable {κ : Type} {config : Config} {c : Client (World κ)} {w w' : World κ}

theorem Asked.calls {ω : Type} {c : Client ω} {w w' : ω} {reports : Reports} (h : Asked c w reports w') :
    c.Calls w w' := by
  induction h with
  | nil => exact .refl
  | @cons l _ _ w _ _ hcall _ ih =>
    have hcalled := Client.Called.status (c := c) l w
    rw [hcall] at hcalled
    exact .head hcalled ih

/-- Rows that were fetched for a task are on record as what the executor of its root has answered. -/
theorem Fetched.leads (hc : c.Recounts config) {r : Running} {fetched : Option (Except RpcError Split)}
    (h : Fetched c r w fetched w') (g : Record) : World.Leads config none none w g w' fun g' =>
      ∀ rows, fetched = some (.ok rows) → ∃ root, r.root = some root ∧ ⟨root, r.task, rows⟩ ∈ g'.answers := by
  cases h with
  | unasked => exact .refl fun _ h => by cases h
  | @asked root _ _ _ hroot hcall =>
    have hleads := hc.results root r.task w g
    rw [hcall] at hleads
    refine hleads.imp fun g' hanswers rows h => ?_
    cases h
    exact ⟨root, hroot, hanswers rows rfl⟩

namespace Turn

variable {t : Turn}

theorem get?_of_files (h : t.files) : ∃ task ∈ t.before.doings, task.id = t.running.task ∧
    t.before.doings.get? t.running.task = some task := by
  rw [files, Bool.and_eq_true] at h
  obtain ⟨task, hget⟩ := Option.isSome_iff_exists.mp h.2
  exact ⟨task, List.mem_of_find?_eq_some hget, TaskList.id_of_get? hget, hget⟩

/-- The section under the lock in which a turn ends. -/
theorem entry {topology : Topology} {g : Record} (t : Turn) (rest : List Running)
    (hanswer : ∀ rows, t.fate = .done rows → ∃ root, t.running.root = some root ∧
      ⟨root, t.running.task, rows⟩ ∈ g.answers) :
    Entry config topology (some (.poll (t.running :: rest))) t.before g (some (.poll rest)) t.after g := by
  have hpass (h : t.after = t.before) : Entry config topology (some (.poll (t.running :: rest))) t.before g
      (some (.poll rest)) t.after g := by
    rw [h]
    exact .locked (.pass t.running rest) rfl
  by_cases hruns : (t.before.doings.get? t.running.task).isSome
  · cases hfate : t.fate with
    | stays => exact hpass (by rw [after, hfate, SchedulerState.settled_stays])
    | done rows =>
      obtain ⟨root, hroot, hmem⟩ := hanswer rows hfate
      refine .close hroot hmem ?_
      rw [SchedulerState.finish_done, if_pos hruns, after, hfate]
    | failed fault =>
      have hfinish : t.before.finish t.running.task false (some fault) none = .ok t.after := by
        rw [SchedulerState.finish_failed, if_pos hruns, after, hfate]
      exact .locked (.close hfinish) (SchedulerState.results_finish _ _ hfinish)
  · exact hpass (SchedulerState.settled_of_none (Option.not_isSome_iff_eq_none.mp hruns) t.fate)

theorem keeps {topology : Topology} {calls calls' : List Underway} {g g' : Record}
    (hx : (Ledger.mk t.before topology calls g).Sound) (hcalls : ∀ id, .fetch id ∈ calls' → .fetch id ∈ calls)
    (hfiles : t.files) {rows : Split} (hfate : t.fate = .done rows) :
    (Ledger.mk t.after topology calls' g').Keeps t.running.task rows := by
  obtain ⟨task, htask, hid, hget⟩ := get?_of_files hfiles
  have hafter : t.after = t.before.withDone task rows := by
    simp only [after, SchedulerState.settled, hget, hfate]
  rw [hafter]
  refine ⟨⟨_, List.mem_append_right _ (List.mem_singleton_self _), hid⟩, ?_, fun hmem => ?_⟩
  · rw [SchedulerState.withDone, hid]
    exact List.lookup_cons_self
  · -- who fetches its rows has found it done, but it was still running
    obtain ⟨u, hu, huid⟩ := hx.backed _ (hcalls _ hmem)
    exact SchedulerState.doings_ended hx.filed htask hu (hid.trans huid.symm)

/-- A turn of a poll takes steps, and so do others in the meantime. -/
theorem Taken.steps (hc : c.Recounts config) (h : t.Taken c w w') (hj : t.Judged)
    {front back : List Underway} {rest : List Running} {g : Record}
    (hx : (w.ledger (front ++ [.poll (t.running :: rest)] ++ back) g).Sound) : ∃ front' g',
      Ledger.Steps config (w.ledger (front ++ [.poll (t.running :: rest)] ++ back) g)
        (w'.ledger (front' ++ [.poll rest] ++ back) g') ∧
      ∀ rows, t.files → t.fate = .done rows →
        (w'.ledger (front' ++ [.poll rest] ++ back) g').Keeps t.running.task rows := by
  obtain ⟨w₁, w₂, w₃, hasked, hfetched, hw₃, hbefore, rfl⟩ := h
  have haborts : c.Calls w₂ w₃ := by
    rw [hw₃]
    split
    · exact .refl
    · exact World.abortAll_calls c t.running.task t.running.executors w₂
  have hwaits : World.Leads config none none w g w₃ fun g' => ∀ rows, t.fetched = some (.ok rows) →
      ∃ root, t.running.root = some root ∧ ⟨root, t.running.task, rows⟩ ∈ g'.answers :=
    (hc.calls hasked.calls g).trans fun g₁ _ _ => (hfetched.leads hc g₁).trans fun g₂ _ hanswer =>
      (hc.calls haborts g₂).trans fun g₃ hgrows _ => .refl fun rows hrows =>
        let ⟨root, hroot, hmem⟩ := hanswer rows hrows
        ⟨root, hroot, hgrows.answers hmem⟩
  obtain ⟨others, g', hsteps, hanswer⟩ := hwaits.waiting (some (.poll (t.running :: rest))) front back
  have hy := hx.steps hsteps
  have hentry : Entry config w₃.topology (some (.poll (t.running :: rest))) t.before g' (some (.poll rest))
      t.after g' := t.entry rest fun rows hfate => hanswer rows ((hj.done rows).mp hfate).2
  rw [← hbefore] at hentry
  refine ⟨front ++ others, g', hsteps.tail (.entry (front ++ others) back hentry), fun rows hfiles hfate => ?_⟩
  rw [World.ledger, hbefore] at hy
  exact keeps hy (fun id hmem => by simpa using hmem) hfiles hfate

end Turn

theorem Rounds.steps (hc : c.Recounts config) {turns : List Turn} (h : Rounds c w turns w')
    (hj : ∀ t ∈ turns, t.Judged) {front back : List Underway} {g : Record}
    (hx : (w.ledger (front ++ [.poll (turns.map (·.running))] ++ back) g).Sound) : ∃ front' g',
      Ledger.Steps config (w.ledger (front ++ [.poll (turns.map (·.running))] ++ back) g)
        (w'.ledger (front' ++ [.poll []] ++ back) g') ∧
      ∀ t ∈ turns, ∀ rows, t.files → t.fate = .done rows →
        (w'.ledger (front' ++ [.poll []] ++ back) g').Keeps t.running.task rows := by
  induction h generalizing front g with
  | nil => exact ⟨front, g, .refl, List.forall_mem_nil _⟩
  | cons h _ ih =>
    obtain ⟨hjudged, hothers⟩ := List.forall_mem_cons.mp hj
    obtain ⟨front₁, g₁, hsteps, hkeeps⟩ := h.steps hc hjudged hx
    have hy := hx.steps hsteps
    obtain ⟨front₂, g₂, hsteps', hkeeps'⟩ := ih hothers hy
    refine ⟨front₂, g₂, hsteps.trans hsteps', List.forall_mem_cons.mpr ⟨fun rows hfiles hfate => ?_, hkeeps'⟩⟩
    -- what the first turn stored outlasts the others
    exact (hkeeps rows hfiles hfate).steps hy hsteps'

end Turns

/-- Whatever executors answer, a poll takes one turn for each running task whose dispatch has come to an end. A
turn files its task as done if all its executors confirm that they are done with it and the root gives the rows,
and as failed by the first executor that speaks against it or if the root gives no rows; any other task keeps
running, and one that has left the running ones meanwhile stays as it is. The tasks that the poll tells are
those it has filed, and the rows of those that are done are given to whoever asks for them later. -/
theorem World.poll_files_by_verdict {κ : Type} {config : Config} {topology : Topology} {x : Ledger}
    (h : Ledger.Steps config (Ledger.start topology) x) (c : Client (World κ)) {w : World κ}
    (hscheduler : w.scheduler = x.scheduler) (htopology : w.topology = x.topology) :
    (∀ id, id ∈ w.scheduler.running.map (·.task) ↔
      id ∈ w.scheduler.doings.map (·.id) ∧ .dispatch id ∉ x.calls) ∧
    (w.scheduler.running.map (·.task)).Nodup ∧
    ∃ turns : List Turn, turns.map (·.running) = w.scheduler.running ∧
      Rounds c w turns (pollRunning c w).2 ∧ (∀ t ∈ turns, t.Judged ∧ t.Confined) ∧
      (pollRunning c w).1 = (turns.filter (·.files)).map (·.running.task) ∧
      (c.Recounts config → ∃ y, Ledger.Steps config x y ∧ y.scheduler = (pollRunning c w).2.scheduler ∧
        ∀ t ∈ turns, ∀ rows, t.files → t.fate = .done rows → ∀ z, Ledger.Steps config y z →
          ∀ (κ' : Type) (c' : Client (World κ')) (v : World κ'), v.scheduler = z.scheduler →
            fetchResults c' t.running.task v = (.ok rows, v)) := by
  have hx := (Ledger.sound_start topology).steps h
  have hroots : ∀ r ∈ w.scheduler.running, r.root.isSome := by
    intro r hr
    rw [hscheduler] at hr
    obtain ⟨t, ht, rfl⟩ := List.mem_map.mp hr
    exact hx.roots t (List.mem_filter.mp ht).1
  obtain ⟨turns, hturns, hrounds, hjudged, hids⟩ := pollEach_rounds c hroots w
  refine ⟨fun id => ?_, ?_, turns, hturns, hrounds, fun t ht => ⟨hjudged t ht, t.confined⟩, hids, fun hc => ?_⟩
  · rw [hscheduler]
    exact Ledger.mem_running h
  · have hunique := SchedulerState.nodup_doings (List.nodup_append.mp hx.filed.unique).1
    rw [hscheduler, SchedulerState.running, List.map_map]
    exact (List.filter_sublist.map _).nodup hunique
  · have hsame : w.ledger (x.calls ++ [] ++ []) x.record = x := by
      rw [List.append_nil, List.append_nil, ledger, hscheduler, htopology]
    have hopen : Ledger.Step config (w.ledger (x.calls ++ [] ++ []) x.record)
        (w.ledger (x.calls ++ [.poll w.scheduler.running] ++ []) x.record) :=
      .entry x.calls [] (.locked .poll rfl)
    rw [hsame, ← hturns] at hopen
    have hstarted := hx.step hopen
    obtain ⟨front, g, hsteps, hkeeps⟩ := hrounds.steps hc hjudged hstarted
    refine ⟨_, .head hopen hsteps, rfl, fun t ht rows hfiles hfate z hz κ' c' v hv => ?_⟩
    exact ((hkeeps t ht rows hfiles hfate).steps (hstarted.steps hsteps) hz).fetchResults c' hv

section Lone

open Ledger (lone loneRows loneDispatched)

/-- All executors are done with the first task. -/
def doneClient : Client (World Unit) where
  perform _ _ _ w := (.ok (), w)
  abort _ _ w := (.ok (), w)
  status _ w := (.ok { task := some 1, state := .done, error := none }, w)
  results _ _ w := (.ok loneRows, w)

theorem doneClient_recounts (config : Config) : doneClient.Recounts config where
  perform _ _ _ _ _ := .refl trivial
  abort _ _ _ _ := .refl trivial
  status _ _ _ := .refl trivial
  results l task w g := by
    refine .entry (.answer ⟨l, task, loneRows⟩) fun rows h => ?_
    cases h
    exact List.mem_cons_self

theorem Asked.doneClient {w w' : World Unit} {reports : Reports} (h : Asked doneClient w reports w') :
    ∀ x ∈ reports, Confirms 1 x.2 := by
  induction h with
  | nil => exact List.forall_mem_nil _
  | cons hcall _ ih =>
    cases hcall
    exact List.forall_mem_cons.mpr ⟨⟨_, rfl, rfl, rfl⟩, ih⟩

/-- The only task is filed as done, and its rows are given whenever they are asked for. -/
theorem World.poll_files_by_verdict_lone : ∃ y, Ledger.Steps {} (Ledger.start Shared.loneTopology) y ∧
    y.scheduler.dones.map (·.id) = [1] ∧ ∀ z, Ledger.Steps {} y z → ∀ v : World Unit,
      v.scheduler = z.scheduler → fetchResults doneClient 1 v = (.ok loneRows, v) := by
  let w : World Unit := { scheduler := loneDispatched, topology := Shared.loneTopology, outside := () }
  have hrunning : loneDispatched.running = [⟨1, [lone], some lone⟩] := by decide +kernel
  have hpolled : (pollRunning doneClient w).1 = [1] := by decide +kernel
  have hdones : (pollRunning doneClient w).2.scheduler.dones.map (·.id) = [1] := by decide +kernel
  obtain ⟨_, _, turns, hturns, hrounds, hjudged, hids, hlater⟩ :=
    poll_files_by_verdict Ledger.lone_steps doneClient (w := w) rfl rfl
  obtain ⟨y, hsteps, hscheduler, hrows⟩ := hlater (doneClient_recounts {})
  rw [show w.scheduler.running = _ from hrunning] at hturns
  obtain ⟨t, rest, rfl, hrun, hrest⟩ := List.map_eq_cons_iff.mp hturns
  obtain rfl := List.map_eq_nil_iff.mp hrest
  have hfiles : t.files := by
    by_contra hnot
    rw [hpolled, List.filter_singleton, eq_false_of_ne_true hnot] at hids
    cases hids
  have hfate : t.fate = .done loneRows := by
    obtain ⟨_, _, _, _, hasked, hfetched, _⟩ : ∃ w', t.Taken doneClient w w' := by
      cases hrounds with
      | cons h _ => exact ⟨_, h⟩
    have hjudged := (hjudged t List.mem_cons_self).1
    have hconfirms : ∀ x ∈ t.reports, Confirms t.running.task x.2 := hrun ▸ hasked.doneClient
    have hwhole := hjudged.whole fun x hx _ => (hconfirms x hx).not_against
    refine (hjudged.done loneRows).mpr ⟨⟨hwhole, hconfirms⟩, ?_⟩
    obtain ⟨answer, hanswer⟩ := Option.isSome_iff_exists.mp (hjudged.fetched.mpr ⟨hwhole, hconfirms⟩)
    rw [hanswer] at hfetched ⊢
    cases hfetched with
    | asked _ hcall =>
      cases hcall
      rfl
  refine ⟨y, Ledger.lone_steps.trans hsteps, hscheduler ▸ hdones, fun z hz v hv => ?_⟩
  have hfetch := hrows t List.mem_cons_self loneRows hfiles hfate z hz Unit doneClient v hv
  rwa [hrun] at hfetch

end Lone

end QueryCluster
