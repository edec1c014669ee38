import QueryCluster.Graph.Run
import QueryCluster.Proofs.Executor.Progress

/-!
# What a task leaves to the next

A job or a dialling may outlive its task and come to its end any time later. It carries the epoch in
which it was begun. Each reset begins a new epoch and none comes back, so it finds another epoch than its
own and leaves the slot alone. What a done or failed executor shows is therefore what a job of the
instruction came to that the executor accepted last, and no job before.
-/
namespace QueryCluster

/-- What can become of a job: what its node makes of some inputs, or the loss of an output. -/
inductive Job.ComesTo (w : Workplace) (j : Job) : Except OperatorError (Option Split) → Prop
  | executed (arrival : List Nat) (inputs : List Feed) (hinputs : inputs.length = j.ingress.length) :
      ComesTo w j ((j.node.execute w arrival inputs j.egress.length).outcome.map (·.2))
  | cutOff (hegress : j.egress ≠ []) : ComesTo w j (.error (.split .io))

/-- The same instruction is held as before, and an end that shows was there before. -/
structure Slot.Keeps (s s' : Slot) : Prop where
  epoch : s'.epoch = s.epoch
  task : s'.task = s.task
  node : s'.node = s.node
  shown : s'.state ∈ [ExecutorState.done, .failed] → s' = s

@[simp] theorem Slot.task_complete (s : Slot) (epoch : Nat)
    (outcome : Except OperatorError (Option Split)) : (s.complete epoch outcome).task = s.task := by
  unfold complete
  split
  · rfl
  · cases outcome <;> rfl

theorem Slot.Keeps.refl (s : Slot) : s.Keeps s := ⟨rfl, rfl, rfl, fun _ => rfl⟩

namespace Station

variable {name : String} {s : Station} {e : Event}

/-! ## Epochs -/

/-- Nothing that is under way belongs to an epoch to come. -/
structure Dated (s : Station) : Prop where
  dials : ∀ d ∈ s.dials, d.epoch ≤ s.slot.epoch
  jobs : ∀ j ∈ s.jobs, j.epoch ≤ s.slot.epoch

theorem Dated.change {s' : Station} (h : Dated s) (hc : Change s s') : Dated s' := by
  cases hc with
  | keep hepoch | writers hepoch => exact ⟨hepoch ▸ h.dials, hepoch ▸ h.jobs⟩
  | dial _ hcurrent => exact ⟨List.forall_mem_cons.mpr ⟨hcurrent.le, h.dials⟩, h.jobs⟩
  | readers hepoch =>
    exact ⟨fun d hd => hepoch ▸ h.dials d (List.mem_of_mem_erase hd), hepoch ▸ h.jobs⟩
  | lost => exact ⟨fun d hd => h.dials d (List.mem_of_mem_erase hd), h.jobs⟩
  | start hepoch _ _ hcurrent =>
    exact ⟨hepoch ▸ h.dials, hepoch ▸ List.forall_mem_cons.mpr ⟨hcurrent.le, h.jobs⟩⟩
  | finish hepoch =>
    exact ⟨hepoch ▸ h.dials, fun j hj => hepoch ▸ h.jobs j (List.mem_of_mem_erase hj)⟩
  | stale => exact ⟨h.dials, fun j hj => h.jobs j (List.mem_of_mem_erase hj)⟩

theorem Dated.step (h : Dated s) (name : String) (e : Event) : Dated (s.step name e) := by
  generalize hs' : s.step name e = s'
  have hstep : Stepped name s e s' := hs' ▸ stepped name s e
  cases hstep with
  | @reset slot _ hepoch =>
    have hle : s.slot.epoch ≤ slot.epoch := hepoch ▸ Nat.le_succ _
    exact ⟨fun d hd => (h.dials d hd).trans hle, fun j hj => (h.jobs j hj).trans hle⟩
  | change _ hc => exact h.change hc

theorem dated_run (name : String) (events : List Event) : Dated (run name events) := by
  induction events using List.reverseRecOn with
  | nil => exact ⟨nofun, nofun⟩
  | append_singleton events e ih =>
    rw [run_concat]
    exact ih.step name e

theorem epoch_of_reset (hreset : s.resets name e = true) :
    (s.step name e).slot.epoch = s.slot.epoch + 1 := by
  generalize hs' : s.step name e = s'
  have hstep : Stepped name s e s' := hs' ▸ stepped name s e
  cases hstep with
  | reset _ hepoch => exact hepoch
  | change hno => rw [hreset] at hno; cases hno

theorem epoch_le_step (name : String) (s : Station) (e : Event) :
    s.slot.epoch ≤ (s.step name e).slot.epoch := by
  cases hreset : s.resets name e with
  | true => exact (epoch_of_reset hreset).symm ▸ Nat.le_succ _
  | false => exact ((stepped name s e).change_of_resets hreset).epoch.ge

theorem epoch_le_run (name : String) (before after : List Event) :
    (run name before).slot.epoch ≤ (run name (before ++ after)).slot.epoch := by
  induction after using List.reverseRecOn with
  | nil => rw [List.append_nil]
  | append_singleton after e ih =>
    rw [← List.append_assoc, run_concat]
    exact ih.trans (epoch_le_step name _ e)

theorem epoch_lt_of_reset {before : List Event} (hreset : (run name before).resets name e = true)
    (after : List Event) :
    (run name before).slot.epoch < (run name (before ++ e :: after)).slot.epoch := by
  have hnext := epoch_of_reset hreset
  have hlater := epoch_le_run name (before ++ [e]) after
  rw [run_concat, hnext, List.append_assoc, List.singleton_append] at hlater
  exact hlater

/-! ## What comes too late -/

theorem slot_dialled_of_ne {d : Dialling} (h : s.slot.epoch ≠ d.epoch) (streams : List StreamId) :
    (s.step name (.dialled d streams)).slot = s.slot := by
  have hcommit : s.slot.commitReaders d.epoch streams =
      .error (.notAllowed "setup_readers" .aborted) := by
    rw [Slot.commitReaders, if_pos h]
  simp only [step, hcommit]
  split <;> rfl

theorem slot_ended_of_ne {j : Job} (h : s.slot.epoch ≠ j.epoch)
    (outcome : Except OperatorError (Option Split)) :
    (s.step name (.ended j outcome)).slot = s.slot := by
  simp only [step, Slot.complete_of_ne h]
  split <;> rfl

/-! ## What shows -/

theorem keeps_adopt {x : Except ExecutorError Slot} (h : ∀ slot, x = .ok slot → s.slot.Keeps slot) :
    s.slot.Keeps (s.adopt x).slot := by
  cases x with
  | error fault => exact .refl _
  | ok slot => exact h slot rfl

theorem keeps_answer {r : Request} {connection : StreamId}
    (hreset : s.resets name (.request r connection) = false) :
    s.slot.Keeps (s.answer name connection r).slot := by
  cases r with
  | sendInstruction i =>
    refine keeps_adopt fun slot h => ?_
    rw [resets, h] at hreset
    cases hreset
  | setupWriters =>
    refine keeps_adopt fun slot h => ?_
    obtain ⟨_, rfl⟩ := Slot.setupWriters_eq_ok h
    exact ⟨rfl, rfl, rfl, by simp⟩
  | setupReaders =>
    rw [answer]
    split <;> exact .refl _
  | run =>
    rw [answer]
    split
    · rename_i slot j h
      obtain ⟨_, _, _, _, rfl⟩ := Slot.start_eq_ok h
      exact ⟨rfl, rfl, rfl, by simp⟩
    · exact .refl _
  | abort task =>
    refine keeps_adopt fun slot h => ?_
    rw [resets, h] at hreset
    cases hreset
  | openStream task reader =>
    refine keeps_adopt fun slot h => ?_
    obtain ⟨_, hstate, _, _, rfl⟩ := Slot.attach_eq_ok h
    refine ⟨rfl, rfl, rfl, fun hshown => ?_⟩
    simp only [List.mem_cons, List.not_mem_nil, or_false] at hstate hshown
    rcases hstate with hstate | hstate <;> simp [hstate] at hshown
  | status | fetchResults => exact .refl _

/-- Between two resets only the end of a job of the present epoch shows. -/
theorem keeps_or_ended (hreset : s.resets name e = false) :
    s.slot.Keeps (s.step name e).slot ∨ ∃ j outcome, e = .ended j outcome ∧ j ∈ s.jobs ∧
      j.epoch = s.slot.epoch ∧ (s.step name e).slot = s.slot.complete j.epoch outcome := by
  cases e with
  | request r connection => exact .inl (keeps_answer hreset)
  | dialled d streams =>
    left
    by_cases hd : d ∈ s.dials
    · rw [step, if_pos hd]
      refine keeps_adopt (s := { s with dials := s.dials.erase d }) fun slot h => ?_
      obtain ⟨_, rfl⟩ := Slot.commitReaders_eq_ok h
      exact ⟨rfl, rfl, rfl, by simp⟩
    · rw [step, if_neg hd]
      exact .refl _
  | lost d => exact .inl (.refl _)
  | ended j outcome =>
    by_cases hepoch : s.slot.epoch = j.epoch
    · by_cases hj : j ∈ s.jobs
      · exact .inr ⟨j, outcome, rfl, hj, hepoch.symm, by rw [step, if_pos hj]⟩
      · rw [step, if_neg hj]
        exact .inl (.refl _)
    · rw [slot_ended_of_ne hepoch]
      exact .inl (.refl _)

/-- A job is started for the node that the slot holds. -/
theorem job_of_step {j : Job} (hj : j ∈ (s.step name e).jobs) :
    j ∈ s.jobs ∨ j.epoch = s.slot.epoch ∧ s.slot.node = some j.node := by
  have hadopt : ∀ x : Except ExecutorError Slot, (s.adopt x).jobs = s.jobs := fun x => by
    cases x <;> rfl
  cases e with
  | request r connection =>
    cases r with
    | run =>
      simp only [step, answer] at hj
      split at hj
      · rename_i slot j' h
        obtain ⟨_, _, hnode, hj', _⟩ := Slot.start_eq_ok h
        rcases List.mem_cons.mp hj with rfl | hj
        · exact .inr ⟨by rw [hj'], hnode⟩
        · exact .inl hj
      · exact .inl hj
    | setupReaders =>
      simp only [step, answer] at hj
      split at hj <;> exact .inl hj
    | status | fetchResults => exact .inl hj
    | sendInstruction | setupWriters | abort | openStream =>
      rw [step, answer, hadopt] at hj
      exact .inl hj
  | dialled d streams =>
    rw [step] at hj
    split at hj
    · cases hc : s.slot.commitReaders d.epoch streams with
      | ok | error =>
        rw [hc] at hj
        exact .inl hj
    · exact .inl hj
  | lost d => exact .inl hj
  | ended j' outcome =>
    rw [step] at hj
    split at hj
    · exact .inl (List.mem_of_mem_erase hj)
    · exact .inl hj

/-- A station that has taken an instruction, and all that it shows since. -/
structure Owns (task : TaskId) (node : OperatorNode) (since : List Event) (s : Station) : Prop where
  slot_task : s.slot.task = some task
  slot_node : s.slot.node = some node
  jobs : ∀ j ∈ s.jobs, j.epoch = s.slot.epoch → j.node = node
  done : s.slot.state = .done → ∃ j, j.node = node ∧ j.epoch = s.slot.epoch ∧
    Event.ended j (.ok s.slot.results) ∈ since
  failed : s.slot.state = .failed → ∃ j fault, s.slot.error = some fault ∧ j.node = node ∧
    j.epoch = s.slot.epoch ∧ Event.ended j (.error fault) ∈ since

variable {task : TaskId} {node : OperatorNode} {since : List Event}

theorem owns_of_sent {i : Instruction} {connection : StreamId} (h : Dated s)
    (hreset : s.resets name (.request (.sendInstruction i) connection) = true) :
    ∃ node, i.node = .ok node ∧
      Owns i.task node [] (s.step name (.request (.sendInstruction i) connection)) := by
  rw [resets] at hreset
  cases hreceive : s.slot.receive name i with
  | error fault =>
    rw [hreceive] at hreset
    cases hreset
  | ok slot =>
    obtain ⟨node, hnode, _, _, rfl⟩ := Slot.receive_eq_ok hreceive
    refine ⟨node, hnode, ?_⟩
    rw [step, answer, hreceive]
    refine ⟨rfl, rfl, fun j hj hepoch => ?_, by simp [adopt], by simp [adopt]⟩
    exact absurd (h.jobs j hj) (by rw [hepoch]; exact Nat.not_succ_le_self _)

theorem Owns.keeps (h : Owns task node since s) (hk : s.slot.Keeps (s.step name e).slot) :
    Owns task node (since ++ [e]) (s.step name e) where
  slot_task := hk.task.trans h.slot_task
  slot_node := hk.node.trans h.slot_node
  jobs j hj hepoch := by
    rcases job_of_step hj with hj | ⟨_, hnode⟩
    · exact h.jobs j hj (hepoch.trans hk.epoch)
    · exact Option.some.inj (hnode.symm.trans h.slot_node)
  done hstate := by
    have hsame := hk.shown (by simp [hstate])
    rw [hsame] at hstate ⊢
    obtain ⟨j, hj, hepoch, hmem⟩ := h.done hstate
    exact ⟨j, hj, hepoch, List.mem_append_left _ hmem⟩
  failed hstate := by
    have hsame := hk.shown (by simp [hstate])
    rw [hsame] at hstate ⊢
    obtain ⟨j, fault, herror, hj, hepoch, hmem⟩ := h.failed hstate
    exact ⟨j, fault, herror, hj, hepoch, List.mem_append_left _ hmem⟩

theorem Owns.ended (h : Owns task node since s) {j : Job}
    {outcome : Except OperatorError (Option Split)} (hj : j ∈ s.jobs) (hcurrent : j.epoch = s.slot.epoch) :
    Owns task node (since ++ [.ended j outcome]) (s.step name (.ended j outcome)) := by
  have hnode := h.jobs j hj hcurrent
  have hlast : Event.ended j outcome ∈ since ++ [Event.ended j outcome] :=
    List.mem_append_right _ (List.mem_singleton.mpr rfl)
  have hkept : ∀ j' ∈ s.jobs.erase j, j'.epoch = s.slot.epoch → j'.node = node := fun j' hj' =>
    h.jobs j' (List.mem_of_mem_erase hj')
  simp only [step, if_pos hj, Slot.complete, hcurrent, ne_eq, not_true_eq_false, if_false]
  cases outcome with
  | ok results => exact ⟨h.slot_task, h.slot_node, hkept, fun _ => ⟨j, hnode, hcurrent, hlast⟩, by simp⟩
  | error fault =>
    exact ⟨h.slot_task, h.slot_node, hkept, by simp, fun _ => ⟨j, fault, rfl, hnode, hcurrent, hlast⟩⟩

theorem Owns.step (h : Owns task node since s) (hreset : s.resets name e = false) :
    Owns task node (since ++ [e]) (s.step name e) := by
  rcases keeps_or_ended hreset with hk | ⟨j, outcome, rfl, hj, hcurrent, _⟩
  · exact h.keeps hk
  · exact h.ended hj hcurrent

theorem task_step (hreset : s.resets name e = false) :
    (s.step name e).slot.task = s.slot.task := by
  rcases keeps_or_ended hreset with hk | ⟨j, outcome, _, _, _, hslot⟩
  · exact hk.task
  · rw [hslot, Slot.task_complete]

theorem task_of_reset (hreset : s.resets name e = true) (htask : (s.step name e).slot.task = some task) :
    ∃ i connection, e = .request (.sendInstruction i) connection ∧ i.task = task := by
  cases e with
  | request r connection =>
    cases r with
    | sendInstruction i =>
      obtain ⟨slot, h⟩ : ∃ slot, s.slot.receive name i = .ok slot := by
        rw [resets] at hreset
        cases h : s.slot.receive name i with
        | ok slot => exact ⟨slot, rfl⟩
        | error fault => rw [h] at hreset; cases hreset
      obtain ⟨_, _, _, _, rfl⟩ := Slot.receive_eq_ok h
      rw [step, answer, h] at htask
      exact ⟨i, connection, rfl, Option.some.inj htask⟩
    | abort t =>
      cases h : s.slot.abort t with
      | error fault => rw [resets, h] at hreset; cases hreset
      | ok slot =>
        obtain ⟨_, rfl⟩ := Slot.abort_eq_ok h
        rw [step, answer, h] at htask
        cases htask
    | _ => cases hreset
  | _ => cases hreset

/-- The task a station holds is that of the last instruction it took, and what it shows is its own. -/
theorem owns_run {events : List Event} (htask : (run name events).slot.task = some task) :
    ∃ before i connection since node,
      events = before ++ .request (.sendInstruction i) connection :: since ∧ i.task = task ∧
        i.node = .ok node ∧ Owns task node since (run name events) := by
  induction events using List.reverseRecOn with
  | nil => cases htask
  | append_singleton events e ih =>
    rw [run_concat] at htask ⊢
    cases hreset : (run name events).resets name e with
    | true =>
      obtain ⟨i, connection, rfl, rfl⟩ := task_of_reset hreset htask
      obtain ⟨node, hnode, howns⟩ := owns_of_sent (dated_run name events) hreset
      exact ⟨events, i, connection, [], node, rfl, rfl, hnode, howns⟩
    | false =>
      obtain ⟨before, i, connection, since, node, rfl, hi, hnode, howns⟩ :=
        ih ((task_step hreset).symm.trans htask)
      refine ⟨before, i, connection, since ++ [e], node, ?_, hi, hnode, howns.step hreset⟩
      rw [List.append_assoc, List.cons_append]

/-- An end of something that was under way. -/
inductive LeftOver (s : Station) : Event → Prop
  | dialled {d : Dialling} (hd : d ∈ s.dials) (streams : List StreamId) : LeftOver s (.dialled d streams)
  | lost {d : Dialling} (hd : d ∈ s.dials) : LeftOver s (.lost d)
  | ended {j : Job} (hj : j ∈ s.jobs) (outcome : Except OperatorError (Option Split)) :
      LeftOver s (.ended j outcome)

theorem slot_leftOver {before : List Event} (hreset : (run name before).resets name e = true)
    (after : List Event) {late : Event} (h : LeftOver (run name before) late) :
    ((run name (before ++ e :: after)).step name late).slot = (run name (before ++ e :: after)).slot := by
  have hlt := epoch_lt_of_reset hreset after
  cases h with
  | dialled hd streams =>
    exact slot_dialled_of_ne (((dated_run name before).dials _ hd).trans_lt hlt).ne' streams
  | lost => rfl
  | ended hj outcome =>
    exact slot_ended_of_ne (((dated_run name before).jobs _ hj).trans_lt hlt).ne' outcome

/-- No two instructions are sent for one task. -/
def Distinct (events : List Event) : Prop :=
  ∀ i c i' c', .request (.sendInstruction i) c ∈ events → .request (.sendInstruction i') c' ∈ events →
    i.task = i'.task → i = i'

/-- Nothing that was under way at a reset changes the slot afterwards, and a done or failed executor
shows what executing the node of its own task came to, since that node was accepted. -/
theorem shows_own_outcome {w : Workplace} {events : List Event} (hdistinct : Distinct events)
    (hworks : ∀ j outcome, .ended j outcome ∈ events → j.ComesTo w outcome) :
    (∀ before e after, events = before ++ e :: after → (run name before).resets name e = true →
      ∀ late, LeftOver (run name before) late →
        ((run name events).step name late).slot = (run name events).slot) ∧
    ∀ task, (run name events).slot.task = some task → ∃ before i connection since node,
      events = before ++ .request (.sendInstruction i) connection :: since ∧ i.task = task ∧
        (∀ i' c, .request (.sendInstruction i') c ∈ events → i'.task = task → i' = i) ∧
        i.node = .ok node ∧
        ((run name events).slot.state = .done → ∃ j, j.node = node ∧
          j.epoch = (run name events).slot.epoch ∧
          .ended j (.ok (run name events).slot.results) ∈ since ∧
          j.ComesTo w (.ok (run name events).slot.results)) ∧
        ((run name events).slot.state = .failed → ∃ j fault,
          (run name events).slot.error = some fault ∧ j.node = node ∧
          j.epoch = (run name events).slot.epoch ∧
          .ended j (.error fault) ∈ since ∧ j.ComesTo w (.error fault)) := by
  constructor
  · rintro before e after rfl hreset late hlate
    exact slot_leftOver hreset after hlate
  · intro task htask
    obtain ⟨before, i, connection, since, node, heq, hi, hnode, howns⟩ := owns_run htask
    have hsince : ∀ e ∈ since, e ∈ events := fun e he => by
      rw [heq]
      exact List.mem_append_right _ (List.mem_cons_of_mem _ he)
    have hsent : .request (.sendInstruction i) connection ∈ events := by simp [heq]
    refine ⟨before, i, connection, since, node, heq, hi, fun i' c hi' ht => ?_, hnode, ?_, ?_⟩
    · exact hdistinct i' c i connection hi' hsent (ht.trans hi.symm)
    · intro hdone
      obtain ⟨j, hj, hepoch, hended⟩ := howns.done hdone
      exact ⟨j, hj, hepoch, hended, hworks _ _ (hsince _ hended)⟩
    · intro hfailed
      obtain ⟨j, fault, herror, hj, hepoch, hended⟩ := howns.failed hfailed
      exact ⟨j, fault, herror, hj, hepoch, hended, hworks _ _ (hsince _ hended)⟩

section Handover

/-! A task is given up while its node is at work and one more dialling is under way. The next one looks
for a table that is not there. -/

def found : Split :=
  { schema := { columns := [⟨"n", .int64⟩] }, rows := [{ values := [.int64 5] }] }

def shelf : Workplace where
  tables := MemoryTables.store [(⟨"c", "s", "t"⟩, [[found]])]
  batchRows := 4
  sortLimit := none

def search : OperatorNode where
  location := ⟨"reader", "host", 1⟩
  operator := .scan
    { catalog := "c", schema := "s", table := "u", columns := { columns := [⟨"n", .int64⟩] },
      partitions := [0], filters := [] }

def searchInstruction : Instruction := .ofNode 8 "c" "s" search

def givenUp : List Event :=
  [.request .setupWriters 1, .request .setupReaders 1, .request .setupReaders 2, .dialled ⟨1, 7, []⟩ [],
    .request .run 1]

def missing : OperatorError := .table (.noTable ⟨"c", "s", "u"⟩)

def takenUp : List Event :=
  [.request .setupWriters 1, .request .setupReaders 1, .ended ⟨1, lookup, [], []⟩ (.ok (some found)),
    .dialled ⟨3, 8, []⟩ [], .dialled ⟨1, 7, []⟩ [5], .request .run 1,
    .ended ⟨3, search, [], []⟩ (.error missing)]

def handover : List Event :=
  (Event.sent lookupInstruction :: givenUp) ++
    .request (.abort 7) 1 :: Event.sent searchInstruction :: takenUp

theorem run_givenUp : run "reader" (Event.sent lookupInstruction :: givenUp) =
    { slot := { state := .running, task := some 7, node := some lookup, epoch := 1 },
      dials := [⟨1, 7, []⟩], jobs := [⟨1, lookup, [], []⟩], started := [⟨1, lookup, [], []⟩] } := by
  rw [run_lookup]
  decide +kernel

theorem lookup_comesTo : Job.ComesTo shelf ⟨1, lookup, [], []⟩ (.ok (some found)) := by
  have hrun : (lookup.execute shelf [] [] 0).outcome.map (·.2) = .ok (some found) := by decide +kernel
  rw [← hrun]
  exact .executed [] [] rfl

theorem search_comesTo : Job.ComesTo shelf ⟨3, search, [], []⟩ (.error missing) := by
  have hrun : (search.execute shelf [] [] 0).outcome.map (·.2) = .error missing := by decide +kernel
  rw [← hrun]
  exact .executed [] [] rfl

theorem works_handover : ∀ j outcome, .ended j outcome ∈ handover → j.ComesTo shelf outcome := by
  intro j outcome h
  simp only [handover, givenUp, takenUp, Event.sent, List.mem_append, List.mem_cons, List.not_mem_nil,
    or_false, false_or, Event.ended.injEq, reduceCtorEq] at h
  rcases h with ⟨rfl, rfl⟩ | ⟨rfl, rfl⟩
  · exact lookup_comesTo
  · exact search_comesTo

theorem distinct_handover : Distinct handover := by
  intro i c i' c' h h' htask
  simp only [handover, givenUp, takenUp, Event.sent, List.mem_append, List.mem_cons, List.not_mem_nil,
    or_false, false_or, Event.request.injEq, Request.sendInstruction.injEq, reduceCtorEq, false_and]
    at h h'
  rcases h with ⟨rfl, _⟩ | ⟨rfl, _⟩ <;> rcases h' with ⟨rfl, _⟩ | ⟨rfl, _⟩ <;>
    first | rfl | exact absurd htask (by decide)

theorem searchInstruction_node : searchInstruction.node = .ok search :=
  Instruction.node_ofNode (by decide +kernel) _ _ _

/-- The first task has been given up, and its node is still at work. -/
def abandoned : Station where
  slot := { epoch := 2 }
  dials := [⟨1, 7, []⟩]
  jobs := [⟨1, lookup, [], []⟩]
  started := [⟨1, lookup, [], []⟩]

theorem step_search : abandoned.step "reader" (.sent searchInstruction) = { abandoned with
    slot := { state := .received, task := some 8, node := some search, epoch := 3 } } := by
  have hreceive := Slot.receive_ok (s := abandoned.slot) searchInstruction_node (List.mem_cons_self ..)
  show abandoned.adopt (abandoned.slot.receive search.location.name searchInstruction) = _
  rw [hreceive]
  rfl

theorem slot_handover : (run "reader" handover).slot =
    { state := .failed, task := some 8, node := some search, error := some missing, epoch := 3 } := by
  have habort : (run "reader" (Event.sent lookupInstruction :: givenUp)).step "reader"
      (.request (.abort 7) 1) = abandoned := by
    rw [run_givenUp]
    decide +kernel
  rw [handover, run, List.foldl_append, ← run, List.foldl_cons, List.foldl_cons, habort, step_search]
  decide +kernel

theorem shows_own_outcome_handover :
    Distinct handover ∧ (∀ j outcome, .ended j outcome ∈ handover → j.ComesTo shelf outcome) ∧
      (run "reader" handover).slot.state = .failed ∧
      (∀ streams, ((run "reader" handover).step "reader" (.dialled ⟨1, 7, []⟩ streams)).slot =
        (run "reader" handover).slot) ∧
      ∃ (j : Job) (fault : OperatorError), (run "reader" handover).slot.error = some fault ∧
        j.node = search ∧ j.ComesTo shelf (.error fault) := by
  obtain ⟨hlate, hown⟩ := @shows_own_outcome "reader" _ _ distinct_handover works_handover
  have hstate : (run "reader" handover).slot.state = .failed := by rw [slot_handover]
  refine ⟨distinct_handover, works_handover, hstate, fun streams => ?_, ?_⟩
  · refine hlate (Event.sent lookupInstruction :: givenUp) (.request (.abort 7) 1) _ rfl ?_ _
      (.dialled ?_ streams)
    · rw [run_givenUp]
      decide
    · rw [run_givenUp]
      exact List.mem_cons_self
  · obtain ⟨_, i, _, _, node, _, hi, hunique, hnode, _, hfailed⟩ := hown 8 (by rw [slot_handover])
    obtain ⟨j, fault, herror, hj, _, _, hcomes⟩ := hfailed hstate
    have hsearch : searchInstruction = i :=
      hunique searchInstruction 0 (by simp [handover, Event.sent]) rfl
    have hsame := searchInstruction_node
    rw [hsearch, hnode] at hsame
    exact ⟨j, fault, herror, hj.trans (Except.ok.inj hsame), hcomes⟩

end Handover

end Station
end QueryCluster
