import QueryCluster.Proofs.Executor.Succession

/-!
# What a refused request leaves behind

Whether a request is accepted is decided by the slot alone, and for the inputs also by those who are
dialled. All that is looked at is looked at before the slot is changed, the calls to the writers being in
between: so a request is either accepted, and then for the documented reason, or the slot stays as it was.
A slot that is not idle holds a task and a node, whatever requests came before, and no fault speaks of a
missing one.
-/
namespace QueryCluster

namespace Slot

variable {s : Slot} {task : TaskId}

/-! ## What is accepted -/

theorem isOk_receive {name : String} {i : Instruction} : (s.receive name i).isOk ↔
    (∃ node, i.node = .ok node ∧ node.location.name = name) ∧
      s.state ∈ [ExecutorState.idle, .done, .failed] := by
  rw [isOk_iff]
  constructor
  · rintro ⟨slot, h⟩
    obtain ⟨node, hnode, hname, hstate, _⟩ := receive_eq_ok h
    exact ⟨⟨node, hnode, hname⟩, hstate⟩
  · rintro ⟨⟨node, hnode, rfl⟩, hstate⟩
    exact ⟨_, receive_ok hnode hstate⟩

theorem isOk_setupWriters : s.setupWriters.isOk ↔ s.state = .received := by
  rw [isOk_iff]
  constructor
  · rintro ⟨slot, h⟩
    exact (setupWriters_eq_ok h).1
  · intro hstate
    exact ⟨_, by rw [setupWriters, requireState, if_pos (List.mem_singleton.mpr hstate)]; rfl⟩

theorem isOk_beginReaders (htask : s.state ≠ .idle → s.task.isSome) :
    s.beginReaders.isOk ↔ s.state = .writersReady := by
  rw [isOk_iff]
  constructor
  · rintro ⟨d, h⟩
    exact (beginReaders_eq_ok h).1
  · intro hstate
    obtain ⟨task, htask⟩ := Option.isSome_iff_exists.mp (htask (by simp [hstate]))
    refine ⟨⟨s.epoch, task, s.inputs⟩, ?_⟩
    rw [beginReaders, requireState, if_pos (List.mem_singleton.mpr hstate), htask]
    rfl

theorem isOk_abort : (s.abort task).isOk ↔ s.task = none ∨ s.task = some task := by
  rw [isOk_iff]
  constructor
  · rintro ⟨slot, h⟩
    exact (abort_eq_ok h).1
  · rintro (hnone | htask)
    · exact ⟨_, by rw [abort, if_neg (by simp [hnone])]; rfl⟩
    · exact ⟨_, by rw [abort, if_pos (by simp [htask]), requireTask, if_pos htask]; rfl⟩

theorem isOk_fetchResults : (s.fetchResults task).isOk ↔
    s.task = some task ∧ s.state = .done ∧ s.results.isSome := by
  rw [isOk_iff]
  constructor
  · rintro ⟨rows, h⟩
    obtain ⟨_, htask, h⟩ := bind_ok h
    obtain ⟨_, hstate, h⟩ := bind_ok h
    refine ⟨requireTask_eq_ok htask, List.mem_singleton.mp (requireState_eq_ok hstate), ?_⟩
    cases hresults : s.results with
    | none => rw [hresults] at h; cases h
    | some rows => rfl
  · rintro ⟨htask, hstate, hresults⟩
    obtain ⟨rows, hrows⟩ := Option.isSome_iff_exists.mp hresults
    refine ⟨rows, ?_⟩
    rw [fetchResults, requireTask, if_pos htask, requireState,
      if_pos (List.mem_singleton.mpr hstate), hrows]
    rfl

/-- An output to a reader of this name waits for its connection. -/
def Offers (s : Slot) (task : TaskId) (reader : String) : Prop :=
  s.task = some task ∧ s.state ∈ [ExecutorState.writersReady, .readersReady] ∧
    ∃ e ∈ s.egress, e.reader.name = reader ∧ e.stream = none

theorem isSome_fill {reader : String} {stream : StreamId} {es : List Egress} :
    (fill reader stream es).isSome ↔ ∃ e ∈ es, e.reader.name = reader ∧ e.stream = none := by
  induction es with
  | nil => simp [fill]
  | cons e es ih =>
    rw [fill]
    split
    · rename_i hfree
      exact ⟨fun _ => ⟨e, List.mem_cons_self, hfree⟩, fun _ => rfl⟩
    · rename_i hfree
      rw [Option.isSome_map, ih, List.exists_mem_cons_iff, or_iff_right hfree]

theorem isOk_attach {reader : Location} {stream : StreamId} :
    (s.attach task reader stream).isOk ↔ s.Offers task reader.name := by
  rw [isOk_iff]
  constructor
  · rintro ⟨slot, h⟩
    obtain ⟨htask, hstate, egress, hfill, _⟩ := attach_eq_ok h
    exact ⟨htask, hstate, isSome_fill.mp (Option.isSome_of_mem hfill)⟩
  · rintro ⟨htask, hstate, hfree⟩
    have hfilled : (fill reader.name stream s.egress).isSome := isSome_fill.mpr hfree
    obtain ⟨egress, hfill⟩ := Option.isSome_iff_exists.mp hfilled
    exact ⟨_, attach_ok htask hstate hfill⟩

theorem isOk_start (hnode : s.state ≠ .idle → s.node.isSome) : s.start.isOk ↔
    s.state = .readersReady ∧ ∀ e ∈ s.egress, e.stream.isSome := by
  rw [isOk_iff]
  constructor
  · rintro ⟨⟨slot, j⟩, h⟩
    obtain ⟨hstate, hegress, _⟩ := start_eq_ok h
    exact ⟨hstate, hegress⟩
  · rintro ⟨hstate, hegress⟩
    obtain ⟨node, hnode⟩ := Option.isSome_iff_exists.mp (hnode (by simp [hstate]))
    exact ⟨_, start_ok hnode hstate hegress⟩

end Slot

/-! ## Slots without a task -/

namespace Station

variable {name : String} {s s' : Station} {e : Event}

/-- Nothing is held, and nothing that is under way can still come in. -/
structure Vacant (s : Station) : Prop where
  idle : s.slot.state = .idle
  dials : ∀ d ∈ s.dials, d.epoch ≠ s.slot.epoch
  jobs : ∀ j ∈ s.jobs, j.epoch ≠ s.slot.epoch

theorem Vacant.change (h : Vacant s) (hc : Change s s') : Vacant s' := by
  cases hc with
  | keep hepoch hstate => exact ⟨hstate.trans h.idle, hepoch ▸ h.dials, hepoch ▸ h.jobs⟩
  | writers _ hbefore => exact absurd (h.idle.symm.trans hbefore) nofun
  | dial hbefore => exact absurd (h.idle.symm.trans hbefore) nofun
  | readers _ hd hcurrent => exact absurd hcurrent (h.dials _ hd)
  | lost => exact ⟨h.idle, fun d hd => h.dials d (List.mem_of_mem_erase hd), h.jobs⟩
  | start _ hbefore => exact absurd (h.idle.symm.trans hbefore) nofun
  | finish _ hj hcurrent => exact absurd hcurrent (h.jobs _ hj)
  | stale => exact ⟨h.idle, h.dials, fun j hj => h.jobs j (List.mem_of_mem_erase hj)⟩

/-- A reset that leaves no task is an abort. -/
theorem idle_of_reset (hreset : s.resets name e = true) (htask : (s.step name e).slot.task = none) :
    (s.step name e).slot.state = .idle := by
  cases e with
  | request r connection =>
    cases r with
    | sendInstruction i =>
      obtain ⟨slot, h⟩ := isOk_iff.mp hreset
      obtain ⟨_, _, _, _, rfl⟩ := Slot.receive_eq_ok h
      rw [step, answer, h] at htask
      cases htask
    | abort task =>
      obtain ⟨slot, h⟩ := isOk_iff.mp hreset
      obtain ⟨_, rfl⟩ := Slot.abort_eq_ok h
      rw [step, answer, h]
      rfl
    | _ => cases hreset
  | _ => cases hreset

theorem vacant_of_reset (h : Dated s) (hreset : s.resets name e = true)
    (htask : (s.step name e).slot.task = none) : Vacant (s.step name e) := by
  have hidle := idle_of_reset hreset htask
  generalize hs' : s.step name e = s' at hidle
  have hstep : Stepped name s e s' := hs' ▸ stepped name s e
  cases hstep with
  | reset _ hepoch =>
    have hlater : ∀ k ≤ s.slot.epoch, k ≠ s.slot.epoch + 1 := fun k hk => (Nat.lt_succ_of_le hk).ne
    exact ⟨hidle, fun d hd => hepoch ▸ hlater _ (h.dials d hd),
      fun j hj => hepoch ▸ hlater _ (h.jobs j hj)⟩
  | change hno => rw [hreset] at hno; cases hno

theorem vacant_run {events : List Event} (htask : (run name events).slot.task = none) :
    Vacant (run name events) := by
  induction events using List.reverseRecOn with
  | nil => exact ⟨rfl, nofun, nofun⟩
  | append_singleton events e ih =>
    rw [run_concat] at htask ⊢
    cases hreset : (run name events).resets name e with
    | true => exact vacant_of_reset (dated_run name events) hreset htask
    | false =>
      have hbefore := ih ((task_step hreset).symm.trans htask)
      exact hbefore.change ((stepped name _ e).change_of_resets hreset)

/-- An executor that is not idle holds a task and the node of its instruction. -/
theorem held_run {events : List Event} (hstate : (run name events).slot.state ≠ .idle) :
    (run name events).slot.task.isSome ∧ (run name events).slot.node.isSome := by
  cases htask : (run name events).slot.task with
  | none => exact absurd (vacant_run htask).idle hstate
  | some task =>
    obtain ⟨_, _, _, _, node, _, _, _, howns⟩ := owns_run htask
    exact ⟨rfl, by rw [howns.slot_node]; rfl⟩

end Station

namespace Network

variable {n n' : Network} {i : Nat}

/-! ## The calls to the writers -/

/-- A call to this location comes neither to this executor nor to a peer that aborts a task on it. -/
structure Apart (n : Network) (i : Nat) (l : Location) : Prop where
  worker : n.reach l ≠ some (.worker i)
  peer : ∀ k p name task, n.reach l = some (.peer k) → n.peers[k]? = some p →
    p.abort = some (name, task) → n.workers.findIdx? (fun w => w.location.name = name) ≠ some i

/-- Something has happened, but not to this executor. -/
structure Bypasses (n : Network) (i : Nat) (n' : Network) : Prop where
  slot : n'.slot i = n.slot i
  jobs : n'.jobs = n.jobs
  places : n.SamePlaces n'

theorem Bypasses.refl (n : Network) (i : Nat) : n.Bypasses i n := ⟨rfl, rfl, (Alike.refl n).samePlaces⟩

theorem Bypasses.trans {n'' : Network} (h : n.Bypasses i n') (h' : n'.Bypasses i n'') :
    n.Bypasses i n'' :=
  ⟨h'.slot.trans h.slot, h'.jobs.trans h.jobs, h.places.trans h'.places⟩

theorem Bypasses.apart {l : Location} (h : n.Bypasses i n') (hl : n.Apart i l) : n'.Apart i l where
  worker := by
    rw [h.places.reach]
    exact hl.worker
  peer k p name task hreach hp habort := by
    rw [h.places.reach] at hreach
    have hsame : (n'.peers.map fun p => (p.location, p.abort))[k]? = some (p.location, p.abort) := by
      rw [List.getElem?_map, hp]
      rfl
    rw [h.places.peers, List.getElem?_map] at hsame
    obtain ⟨p', hp', heq⟩ := Option.map_eq_some_iff.mp hsame
    rw [h.places.findIdx? fun l => decide (l.name = name)]
    exact hl.peer k p' name task hreach hp' ((congrArg Prod.snd heq).trans habort)

theorem bypasses_update {j : Nat} (h : i ≠ j) (step : Slot → Except ExecutorError Slot) :
    n.Bypasses i (n.update j step).2 := by
  rw [update]
  split
  · exact .refl n i
  · exact ⟨slot_put_of_ne _ h, rfl, (alike_put ..).samePlaces⟩

theorem bypasses_connect (c : Connection) : n.Bypasses i (n.connect c) :=
  ⟨rfl, rfl, rfl, rfl, rfl⟩

theorem bypasses_close (streams : List StreamId) : n.Bypasses i (n.close streams) :=
  ⟨rfl, rfl, rfl, rfl, rfl⟩

/-- A peer remembers who has called it. -/
theorem bypasses_called {k : Nat} {p : Peer} (hp : n.peers[k]? = some p)
    (requests : List (TaskId × String)) :
    n.Bypasses i { n with peers := n.peers.set k { p with requests } } := by
  refine ⟨rfl, rfl, rfl, List.ext_getElem? fun j => ?_, rfl⟩
  have hk : k < n.peers.length := (List.getElem?_eq_some_iff.mp hp).1
  by_cases h : j = k
  · subst h
    rw [List.getElem?_map, List.getElem?_map, List.getElem?_set_self hk, hp]
    rfl
  · rw [List.getElem?_map, List.getElem?_map, List.getElem?_set_ne (Ne.symm h)]

/-- A peer has been called: it remembers that, and may have aborted a task. -/
def asked (n : Network) (k : Nat) (p : Peer) (task : TaskId) (reader : Location) : Network :=
  let n := { n with peers := n.peers.set k { p with requests := p.requests ++ [(task, reader.name)] } }
  match p.abort with
  | none => n
  | some (name, task) =>
    match n.workers.findIdx? fun w => w.location.name = name with
    | some i => (n.update i (·.abort task)).2
    | none => n

theorem bypasses_asked {k : Nat} {p : Peer} {l : Location} (hl : n.Apart i l)
    (hreach : n.reach l = some (.peer k)) (hp : n.peers[k]? = some p) (task : TaskId)
    (reader : Location) : n.Bypasses i (n.asked k p task reader) := by
  have hcalled := bypasses_called (i := i) hp (p.requests ++ [(task, reader.name)])
  unfold asked
  split
  · exact hcalled
  · rename_i name aborted habort
    dsimp only
    split
    · rename_i j hj
      have hne : i ≠ j := fun h => hl.peer k p name aborted hreach hp habort (h ▸ hj)
      exact hcalled.trans (bypasses_update hne _)
    · exact hcalled

theorem dial_peer {k : Nat} {p : Peer} {l : Location} (hreach : n.reach l = some (.peer k))
    (hp : n.peers[k]? = some p) (task : TaskId) (reader : Location) :
    (n.dial task reader l).2 = n.asked k p task reader ∨
      ∃ c, (n.dial task reader l).2 = (n.asked k p task reader).connect c := by
  simp only [dial, hreach, hp]
  split
  · exact .inl rfl
  · split
    · exact .inl rfl
    · exact .inr ⟨_, rfl⟩

theorem bypasses_dial {l : Location} (hl : n.Apart i l) (task : TaskId) (reader : Location) :
    n.Bypasses i (n.dial task reader l).2 := by
  cases hreach : n.reach l with
  | none =>
    rw [dial, hreach]
    exact .refl n i
  | some party =>
    cases party with
    | worker j =>
      have hne : i ≠ j := fun h => hl.worker (h ▸ hreach)
      have hupdate := bypasses_update (n := n) hne (·.attach task reader n.connections.length)
      simp only [dial, hreach]
      split
      · rename_i h
        rwa [h] at hupdate
      · rename_i h
        rw [h] at hupdate
        exact hupdate.trans (bypasses_connect _)
    | peer k =>
      cases hp : n.peers[k]? with
      | none =>
        simp only [dial, hreach, hp]
        exact .refl n i
      | some p =>
        have hasked := bypasses_asked hl hreach hp task reader
        rcases dial_peer hreach hp task reader with h | ⟨c, h⟩
        · rwa [h]
        · rw [h]
          exact hasked.trans (bypasses_connect c)

/-- Every writer acknowledges the stream it is asked for, one after the other. -/
def Acknowledged (task : TaskId) (reader : Location) : List Location → Network → Prop
  | [], _ => True
  | l :: ls, n =>
    (n.dial task reader l).1.isOk ∧ Acknowledged task reader ls (n.dial task reader l).2

theorem isOk_dialAll (task : TaskId) (reader : Location) (ls : List Location) (n : Network)
    (opened : List StreamId) :
    (dialAll task reader opened ls n).1.isOk ↔ Acknowledged task reader ls n := by
  induction ls generalizing opened n with
  | nil => exact ⟨fun _ => trivial, fun _ => rfl⟩
  | cons l ls ih =>
    rw [dialAll, Acknowledged]
    split
    · rename_i h
      rw [h]
      exact ⟨nofun, fun h => absurd h.1 nofun⟩
    · rename_i h
      rw [h, ih]
      exact ⟨fun h => ⟨rfl, h⟩, And.right⟩

theorem bypasses_dialAll (task : TaskId) (reader : Location) {ls : List Location} (hls : ∀ l ∈ ls, n.Apart i l) (opened : List StreamId) :
    n.Bypasses i (dialAll task reader opened ls n).2 := by
  induction ls generalizing opened n with
  | nil => exact .refl n i
  | cons l ls ih =>
    obtain ⟨hl, hls⟩ := List.forall_mem_cons.mp hls
    have hdial := bypasses_dial hl task reader
    rw [dialAll]
    split
    · rename_i h
      rw [h] at hdial
      exact hdial.trans (bypasses_close opened)
    · rename_i h
      rw [h] at hdial
      exact hdial.trans (ih (fun m hm => hdial.apart (hls m hm)) _)

/-! ## The end of jobs -/

theorem slot_finish_of_ne {j : Nat} {job : Job}
    (hjob : j = i → job.epoch ≠ (n.slot i).epoch) (e : Execution) :
    (n.finish j job e).slot i = n.slot i := by
  obtain ⟨outcome, hslot⟩ := n.slot_finish j job e
  rcases hslot i with hsame | ⟨heq, hcomplete⟩
  · exact hsame
  · rw [hcomplete, Slot.complete_of_ne (hjob heq.symm).symm]

/-- Jobs that have been left behind, and those of others, leave a slot alone. -/
theorem slot_settle (hjobs : ∀ j, (i, j) ∈ n.jobs → j.epoch ≠ (n.slot i).epoch) : n.settle.slot i = n.slot i := by
  rw [settle]
  generalize n.jobs.length = fuel
  induction fuel generalizing n with
  | zero => rfl
  | succ fuel ih =>
    rw [settleWithin]
    split
    · rfl
    · rename_i i' j e others hnext
      obtain ⟨k, hk, rfl⟩ := nextJob_ok hnext
      have hslot : ({ n with jobs := n.jobs.eraseIdx k }.finish i' j e).slot i = n.slot i :=
        slot_finish_of_ne (n := { n with jobs := n.jobs.eraseIdx k })
          (fun h => hjobs j (h ▸ List.mem_of_getElem? hk)) e
      refine (ih fun j' hj' => ?_).trans hslot
      rw [hslot]
      exact hjobs j' (List.mem_of_mem_eraseIdx hj')

/-! ## Requests -/

theorem setupReaders_spec (self : Location)
    (hinputs : ∀ l ∈ (n.slot i).inputs, n.Apart i l)
    (htask : (n.slot i).state ≠ .idle → (n.slot i).task.isSome) :
    ((n.setupReaders i self).1.isOk ↔ (n.slot i).state = .writersReady ∧
      ∀ task ∈ (n.slot i).task, Acknowledged task self (n.slot i).inputs n) ∧
    ((n.setupReaders i self).1.isOk = false → n.Bypasses i (n.setupReaders i self).2) := by
  have hbegin := Slot.isOk_beginReaders htask
  rw [setupReaders]
  cases h : (n.slot i).beginReaders with
  | error e =>
    rw [h] at hbegin
    exact ⟨⟨nofun, fun h => absurd (hbegin.mpr h.1) nofun⟩, fun _ => .refl n i⟩
  | ok d =>
    obtain ⟨hstate, htask, hepoch, hd⟩ := Slot.beginReaders_eq_ok h
    have hdials := isOk_dialAll d.task self d.inputs n []
    have hbypass := bypasses_dialAll d.task self (hd ▸ hinputs) []
    simp only [hstate, htask, hd, Option.mem_some_iff, true_and, forall_eq'] at hdials hbypass ⊢
    split
    · rename_i heq
      rw [heq] at hdials hbypass
      exact ⟨hdials, fun _ => hbypass⟩
    · rename_i streams n' heq
      rw [heq] at hdials hbypass
      have hcommit := Slot.commitReaders_ok (s := n'.slot i) streams
      rw [hbypass.slot, ← hepoch] at hcommit
      rw [hbypass.slot, hcommit]
      exact ⟨hdials, nofun⟩

/-- The conditions under which an executor accepts a request on a connection for requests. -/
def Admits (n : Network) (w : Worker) : Request → Prop
  | .sendInstruction i => (∃ node, i.node = .ok node ∧ node.location.name = w.location.name) ∧
      w.slot.state ∈ [ExecutorState.idle, .done, .failed]
  | .setupWriters => w.slot.state = .received
  | .setupReaders => w.slot.state = .writersReady ∧
      ∀ task ∈ w.slot.task, Acknowledged task w.location w.slot.inputs n
  | .run => w.slot.state = .readersReady ∧ ∀ e ∈ w.slot.egress, e.stream.isSome
  | .abort task => w.slot.task = none ∨ w.slot.task = some task
  | .status => True
  | .fetchResults task =>
      w.slot.task = some task ∧ w.slot.state = .done ∧ w.slot.results.isSome
  | .openStream _ _ => False

/-- A request has come to this executor and has changed nothing there. Then the jobs end that can, and
what they change is their own. -/
structure Spares (n : Network) (i : Nat) (after : Network) : Prop where
  answered : ∃ n', n'.slot i = n.slot i ∧ n'.jobs = n.jobs ∧ (after = n' ∨ after = n'.settle)
  unworked : (∀ j, (i, j) ∈ n.jobs → j.epoch ≠ (n.slot i).epoch) → after.slot i = n.slot i

theorem Spares.refl (n : Network) (i : Nat) : n.Spares i n :=
  ⟨⟨n, rfl, rfl, .inl rfl⟩, fun _ => rfl⟩

theorem Bypasses.spares_settle (h : n.Bypasses i n') : n.Spares i n'.settle where
  answered := ⟨n', h.slot, h.jobs, .inr rfl⟩
  unworked hjobs := by
    rw [← h.slot]
    refine slot_settle fun j hj => ?_
    rw [h.slot]
    exact hjobs j (h.jobs ▸ hj)

/-- What an answer tells, and what a refusal leaves, of a request that is acknowledged. -/
theorem acknowledge_spec {x : Except ExecutorError Unit × Network} {P : Prop}
    (h : (x.1.isOk ↔ P) ∧ (x.1.isOk = false → n.Bypasses i x.2)) :
    ((control.acknowledge x).1.isOk ↔ P) ∧
      ((control.acknowledge x).1.isOk = false → n.Spares i (control.acknowledge x).2) := by
  have hok : (control.acknowledge x).1.isOk = x.1.isOk := by
    rw [control.acknowledge]
    cases x.1 <;> rfl
  rw [hok]
  exact ⟨h.1, fun hno => (h.2 hno).spares_settle⟩

theorem update_spec {step : Slot → Except ExecutorError Slot} {P : Prop}
    (h : (step (n.slot i)).isOk ↔ P) :
    ((n.update i step).1.isOk ↔ P) ∧ ((n.update i step).1.isOk = false → (n.update i step).2 = n) := by
  rw [update]
  cases hstep : step (n.slot i) with
  | error e =>
    rw [hstep] at h
    exact ⟨h, fun _ => rfl⟩
  | ok s =>
    rw [hstep] at h
    exact ⟨h, fun hfails => by cases hfails⟩

theorem start_spec {w : Worker} {P : Prop} (h : (n.slot i).start.isOk ↔ P) :
    ((n.start i w).1.isOk ↔ P) ∧ ((n.start i w).1.isOk = false → (n.start i w).2 = n) := by
  rw [start]
  cases hstart : (n.slot i).start with
  | error e =>
    rw [hstart] at h
    exact ⟨h, fun _ => rfl⟩
  | ok x =>
    rw [hstart] at h
    exact ⟨h, fun hfails => by cases hfails⟩

/-- Whatever has come to an executor before, a request and a reader are accepted under the documented
conditions and no others, and a refusal leaves the slot as it was. No request overlaps with the setting up
of the inputs if the calls to the writers do not come back. -/
theorem accepts_exactly_or_spares {w : Worker} {events : List Event}
    (hw : n.workers[i]? = some w) (hslot : w.slot = (Station.run w.location.name events).slot) :
    (∀ r, (r = .setupReaders → ∀ l ∈ w.slot.inputs, n.Apart i l) →
      ((n.control i w r).1.isOk ↔ n.Admits w r) ∧
        ((n.control i w r).1.isOk = false → n.Spares i (n.control i w r).2)) ∧
    ∀ task reader stream,
      ((n.update i (·.attach task reader stream)).1.isOk ↔ w.slot.Offers task reader.name) ∧
        ((n.update i (·.attach task reader stream)).1.isOk = false →
          (n.update i (·.attach task reader stream)).2 = n) := by
  have hheld : n.slot i = w.slot := by rw [slot, hw]; rfl
  have hequipped : w.slot.state ≠ .idle → w.slot.task.isSome ∧ w.slot.node.isSome := by
    rw [hslot]
    exact Station.held_run
  have hupdate : ∀ {step : Slot → Except ExecutorError Slot} {P : Prop},
      ((step w.slot).isOk ↔ P) → ((control.acknowledge (n.update i step)).1.isOk ↔ P) ∧
        ((control.acknowledge (n.update i step)).1.isOk = false →
          n.Spares i (control.acknowledge (n.update i step)).2) := by
    intro step P h
    obtain ⟨hok, hno⟩ := update_spec (n := n) (i := i) (hheld ▸ h)
    exact acknowledge_spec ⟨hok, fun h => (hno h).symm ▸ .refl n i⟩
  constructor
  · intro r hapart
    cases r with
    | sendInstruction t => exact hupdate Slot.isOk_receive
    | setupWriters => exact hupdate Slot.isOk_setupWriters
    | setupReaders =>
      refine acknowledge_spec ?_
      have hspec := setupReaders_spec (n := n) (i := i) w.location
      rw [hheld] at hspec
      exact hspec (hapart rfl) fun h => (hequipped h).1
    | run =>
      have hstart : (n.slot i).start.isOk ↔ n.Admits w .run := by
        rw [hheld]
        exact Slot.isOk_start fun h => (hequipped h).2
      obtain ⟨hok, hno⟩ := start_spec (w := w) hstart
      exact acknowledge_spec ⟨hok, fun h => (hno h).symm ▸ .refl n i⟩
    | abort task => exact hupdate Slot.isOk_abort
    | status => exact ⟨⟨fun _ => trivial, fun _ => rfl⟩, fun hfails => by cases hfails⟩
    | fetchResults task =>
      have hok : (n.control i w (.fetchResults task)).1.isOk = (w.slot.fetchResults task).isOk := by
        rw [control]
        cases w.slot.fetchResults task <;> rfl
      rw [hok]
      exact ⟨Slot.isOk_fetchResults, fun _ => .refl n i⟩
    | openStream task reader => exact ⟨⟨(fun h => by cases h), False.elim⟩, fun _ => .refl n i⟩
  · intro task reader stream
    exact update_spec (hheld ▸ Slot.isOk_attach)

section Stranded

/-! The first of two writers acknowledges and the second cannot be reached. -/

def gather : OperatorNode where
  location := ⟨"reader", "host", 1⟩
  inputs := [⟨"writer", "host", 2⟩, ⟨"gone", "host", 3⟩]
  operator := .union

def gatherInstruction : Instruction := .ofNode 7 "c" "s" gather

theorem gatherInstruction_node : gatherInstruction.node = .ok gather :=
  Instruction.node_ofNode (by decide +kernel) _ _ _

theorem run_gather (events : List Event) :
    Station.run "reader" (Event.sent gatherInstruction :: events) =
      events.foldl (Station.step "reader") (Station.given 7 gather) :=
  Station.run_sent gatherInstruction_node rfl events

def bareplace : Workplace := { tables := MemoryTables.store [], batchRows := 4, sortLimit := none }

def stranded : Worker where
  location := gather.location
  workplace := bareplace
  slot := { (Station.given 7 gather).slot with state := .writersReady }

def halfway : Network where
  workers := [stranded, {
    location := ⟨"writer", "host", 2⟩
    workplace := bareplace
    slot := { state := .writersReady, task := some 7, egress := [⟨gather.location, none⟩] } }]

theorem halfway_apart : ∀ l ∈ stranded.slot.inputs, halfway.Apart 0 l := by
  intro l hl
  have hreach : halfway.reach l ≠ some (.worker 0) ∧ ∀ k, halfway.reach l ≠ some (.peer k) := by
    simp only [stranded, gather, Slot.inputs, Station.given, Option.map_some, Option.getD_some,
      List.mem_cons, List.not_mem_nil, or_false] at hl
    rcases hl with rfl | rfl <;> exact ⟨by decide, fun k h => by cases h⟩
  exact ⟨hreach.1, fun k _ _ _ h => absurd h (hreach.2 k)⟩

theorem accepts_exactly_or_spares_halfway :
    halfway.workers[0]? = some stranded ∧
    stranded.slot = (Station.run "reader"
      [Event.sent gatherInstruction, .request .setupWriters 0]).slot ∧
    (∀ l ∈ stranded.slot.inputs, halfway.Apart 0 l) ∧
    (halfway.control 0 stranded .setupReaders).1.isOk = false ∧
    ¬halfway.Admits stranded .setupReaders ∧
    halfway.Spares 0 (halfway.control 0 stranded .setupReaders).2 := by
  have hslot : stranded.slot = (Station.run stranded.location.name
      [Event.sent gatherInstruction, .request .setupWriters 0]).slot := by
    show _ = (Station.run "reader" _).slot
    rw [run_gather]
    rfl
  obtain ⟨hok, hno⟩ := (accepts_exactly_or_spares (n := halfway) (i := 0) rfl hslot).1 .setupReaders
    fun _ => halfway_apart
  have hrefused : (halfway.control 0 stranded .setupReaders).1.isOk = false := by decide +kernel
  exact ⟨rfl, hslot, halfway_apart, hrefused, fun h => by simp [hok.mpr h] at hrefused, hno hrefused⟩

end Stranded

end Network
end QueryCluster
