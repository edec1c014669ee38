import Mathlib.Logic.Relation
import QueryCluster.Proofs.Executor.Refusals

/-!
# Executors at work

An executor is at work from the time it takes an instruction until its node is done or has failed, or it is
told to abort. Only an instruction brings it to work: whatever else is asked of a network or goes on in it, an
executor that is at work afterwards was at work before, for the same task. And only an executor at work refuses
an instruction for the state it is in.
-/
namespace QueryCluster

namespace Slot

/-- A node is held that is neither done nor has failed. -/
def AtWork (s : Slot) : Prop := s.state ∉ [ExecutorState.idle, .done, .failed]

instance (s : Slot) : Decidable s.AtWork := inferInstanceAs (Decidable (_ ∉ _))

/-- What a slot comes to as long as no instruction is taken. Another task means another epoch. -/
structure Calms (s s' : Slot) : Prop where
  work : s'.AtWork → s.AtWork ∧ s'.task = s.task
  epoch : s.epoch ≤ s'.epoch
  task : s'.epoch = s.epoch → s'.task = s.task

variable {s s' s'' : Slot} {task : TaskId}

theorem Calms.refl (s : Slot) : s.Calms s := ⟨fun h => ⟨h, rfl⟩, Nat.le_refl _, fun _ => rfl⟩

theorem Calms.trans (h : s.Calms s') (h' : s'.Calms s'') : s.Calms s'' where
  work hwork := by
    obtain ⟨hwork', htask'⟩ := h'.work hwork
    obtain ⟨hwork, htask⟩ := h.work hwork'
    exact ⟨hwork, htask'.trans htask⟩
  epoch := Nat.le_trans h.epoch h'.epoch
  task hepoch := by
    have hfirst := h.epoch
    have hsecond := h'.epoch
    exact (h'.task (by omega)).trans (h.task (by omega))

theorem calms_of_same (htask : s'.task = s.task) (hepoch : s'.epoch = s.epoch)
    (hwork : s'.AtWork → s.AtWork) : s.Calms s' :=
  ⟨fun h => ⟨hwork h, htask⟩, Nat.le_of_eq hepoch.symm, fun _ => htask⟩

theorem not_atWork_reset (s : Slot) : ¬s.reset.AtWork := by
  intro h
  exact h List.mem_cons_self

theorem calms_reset (s : Slot) : s.Calms s.reset := by
  refine ⟨fun h => absurd h s.not_atWork_reset, Nat.le_succ _, fun h => ?_⟩
  exact absurd h (Nat.succ_ne_self _)

theorem calms_setupWriters (h : s.setupWriters = .ok s') : s.Calms s' := by
  obtain ⟨hstate, rfl⟩ := setupWriters_eq_ok h
  exact calms_of_same rfl rfl fun _ => by simp [AtWork, hstate]

theorem calms_attach {reader : Location} {stream : StreamId} (h : s.attach task reader stream = .ok s') :
    s.Calms s' := by
  obtain ⟨_, _, _, _, rfl⟩ := attach_eq_ok h
  exact calms_of_same rfl rfl id

theorem calms_start {j : Job} (h : s.start = .ok (s', j)) : s.Calms s' := by
  obtain ⟨hstate, _, _, _, rfl⟩ := start_eq_ok h
  exact calms_of_same rfl rfl fun _ => by simp [AtWork, hstate]

theorem calms_abort (h : s.abort task = .ok s') : s.Calms s' := by
  obtain ⟨_, rfl⟩ := abort_eq_ok h
  exact s.calms_reset

theorem calms_complete (s : Slot) (epoch : Nat) (outcome : Except OperatorError (Option Split)) :
    s.Calms (s.complete epoch outcome) :=
  calms_of_same (s.task_complete epoch outcome) (epoch_complete epoch outcome) fun hwork hstate =>
    hwork (state_complete hstate)

theorem not_atWork_abort (h : (s.abort task).isOk = false) : s.task ≠ some task := by
  intro htask
  rw [isOk_abort.mpr (.inr htask)] at h
  cases h

/-! ## Why an instruction is refused -/

theorem receive_eq_error {name : String} {i : Instruction} {e : ExecutorError}
    (h : s.receive name i = .error e) : (∃ error, e = .instruction error) ∨
      (∃ expected, e = .wrongExecutor expected name) ∨
      e = .notAllowed "send_instruction" (.state s.state) ∧ s.AtWork := by
  rw [receive] at h
  cases hnode : i.node with
  | error error =>
    rw [hnode] at h
    cases h
    exact .inl ⟨error, rfl⟩
  | ok node =>
    rw [hnode, Except.mapError, ok_bind] at h
    by_cases hname : node.location.name = name
    · by_cases hstate : s.state ∈ [ExecutorState.idle, .done, .failed]
      · rw [if_neg (not_not.mpr hname), requireState, if_pos hstate] at h
        cases h
      · rw [if_neg (not_not.mpr hname), requireState, if_neg hstate] at h
        cases h
        exact .inr (.inr ⟨rfl, hstate⟩)
    · rw [if_pos hname] at h
      cases h
      exact .inr (.inl ⟨_, rfl⟩)

theorem head?_toList_append (a b : String) : (a ++ b).toList.head? = a.toList.head?.or b.toList.head? := by
  rw [String.toList_append, List.head?_append]

theorem atWork_of_message {name : String} {i : Instruction} {e : ExecutorError} {state : ExecutorState}
    (h : s.receive name i = .error e)
    (hmessage : e.message = (ExecutorError.notAllowed "send_instruction" (.state state)).message) :
    s.AtWork := by
  have hfirst : e.message.toList.head? = some 's' := by
    rw [hmessage]
    unfold ExecutorError.message
    simp only [head?_toList_append]
    rfl
  rcases receive_eq_error h with ⟨error, rfl⟩ | ⟨expected, rfl⟩ | ⟨_, hwork⟩
  · unfold ExecutorError.message at hfirst
    simp only [head?_toList_append] at hfirst
    cases hfirst
  · unfold ExecutorError.message at hfirst
    simp only [head?_toList_append] at hfirst
    cases hfirst
  · exact hwork

end Slot

namespace Network

variable {n n' n'' : Network} {i : Nat} {l : Location} {task : TaskId}

/-- Nobody has taken an instruction. -/
structure Calms (n n' : Network) : Prop where
  places : n.SamePlaces n'
  slots : ∀ i, (n.slot i).Calms (n'.slot i)

theorem calms_of_slots (hplaces : n.SamePlaces n') (hslots : ∀ i, n'.slot i = n.slot i) : n.Calms n' :=
  ⟨hplaces, fun i => (hslots i).symm ▸ .refl _⟩

theorem calms_of_bypasses (h : ∀ i, n.Bypasses i n') : n.Calms n' :=
  calms_of_slots (h 0).places fun i => (h i).slot

theorem Calms.refl (n : Network) : n.Calms n := calms_of_bypasses fun i => .refl n i

theorem Calms.trans (h : n.Calms n') (h' : n'.Calms n'') : n.Calms n'' :=
  ⟨h.places.trans h'.places, fun i => (h.slots i).trans (h'.slots i)⟩

theorem Calms.put {s : Slot} (h : n.Calms n') (hs : (n.slot i).Calms s) : n.Calms (n'.put i s) := by
  refine ⟨h.places.trans (alike_put i s).samePlaces, fun j => ?_⟩
  rcases slot_put_cases (n := n') i j s with hslot | ⟨rfl, hslot⟩
  · rw [hslot]
    exact h.slots j
  · rwa [hslot]

theorem calms_update {step : Slot → Except ExecutorError Slot}
    (h : ∀ s, step (n.slot i) = .ok s → (n.slot i).Calms s) : n.Calms (n.update i step).2 := by
  rw [update]
  split
  · exact .refl n
  · exact (Calms.refl n).put (h _ ‹_›)

theorem calms_asked {k : Nat} {p : Peer} (hp : n.peers[k]? = some p) (task : TaskId) (reader : Location) :
    n.Calms (n.asked k p task reader) := by
  have hcalled := calms_of_bypasses fun i =>
    bypasses_called (i := i) hp (p.requests ++ [(task, reader.name)])
  unfold asked
  split
  · exact hcalled
  · dsimp only
    split
    · exact hcalled.trans (calms_update fun _ h => Slot.calms_abort h)
    · exact hcalled

theorem calms_dial (task : TaskId) (reader l : Location) : n.Calms (n.dial task reader l).2 := by
  cases hreach : n.reach l with
  | none =>
    rw [dial, hreach]
    exact .refl n
  | some party =>
    cases party with
    | worker i =>
      have hupdate : n.Calms (n.update i (·.attach task reader n.connections.length)).2 :=
        calms_update fun _ h => Slot.calms_attach h
      simp only [dial, hreach]
      split
      · rename_i h
        rwa [h] at hupdate
      · rename_i h
        rw [h] at hupdate
        exact hupdate.trans (calms_of_bypasses fun i => bypasses_connect _)
    | peer k =>
      cases hp : n.peers[k]? with
      | none =>
        simp only [dial, hreach, hp]
        exact .refl n
      | some p =>
        have hasked := calms_asked hp task reader
        rcases dial_peer hreach hp task reader with h | ⟨c, h⟩
        · rwa [h]
        · rw [h]
          exact hasked.trans (calms_of_bypasses fun i => bypasses_connect c)

theorem calms_dialAll (task : TaskId) (reader : Location) (ls : List Location) (n : Network)
    (opened : List StreamId) : n.Calms (dialAll task reader opened ls n).2 := by
  induction ls generalizing n opened with
  | nil => exact .refl n
  | cons l ls ih =>
    have hdial := calms_dial (n := n) task reader l
    rw [dialAll]
    split
    · rename_i h
      rw [h] at hdial
      exact hdial.trans (calms_of_bypasses fun i => bypasses_close opened)
    · rename_i h
      rw [h] at hdial
      exact hdial.trans (ih _ _)

/-- The inputs are set up for the task they were begun for, for the epoch is still the same. -/
theorem calms_setupReaders (i : Nat) (self : Location) : n.Calms (n.setupReaders i self).2 := by
  rw [setupReaders]
  cases hbegin : (n.slot i).beginReaders with
  | error e => exact .refl n
  | ok d =>
    obtain ⟨hstate, _, hepoch, _⟩ := Slot.beginReaders_eq_ok hbegin
    have hdials := calms_dialAll d.task self d.inputs n []
    dsimp only
    split
    · rename_i h
      rwa [h] at hdials
    · rename_i streams n' h
      rw [h] at hdials
      cases hcommit : (n'.slot i).commitReaders d.epoch streams with
      | error e => exact hdials.trans (calms_of_bypasses fun i => bypasses_close streams)
      | ok s =>
        obtain ⟨hsame, rfl⟩ := Slot.commitReaders_eq_ok hcommit
        have hcurrent : (n'.slot i).epoch = (n.slot i).epoch := hsame.trans hepoch
        exact hdials.put (Slot.calms_of_same ((hdials.slots i).task hcurrent) hcurrent fun _ => by
          simp [Slot.AtWork, hstate])

theorem calms_start (i : Nat) (w : Worker) : n.Calms (n.start i w).2 := by
  rw [start]
  split
  · exact .refl n
  · rename_i s j h
    have hput := (Calms.refl n).put (Slot.calms_start h)
    exact hput.trans (calms_of_slots ⟨rfl, rfl, rfl⟩ fun _ => rfl)

theorem calms_finish (n : Network) (i : Nat) (j : Job) (e : Execution) : n.Calms (n.finish i j e) := by
  obtain ⟨outcome, hfinish⟩ := n.finish_eq i j e
  have hdeliver : n.Calms (n.deliver j.egress e.sent) := calms_of_slots ⟨rfl, rfl, rfl⟩ fun _ => rfl
  rw [hfinish]
  exact hdeliver.put (Slot.calms_complete ..)

/-! ## What goes on without being asked for -/

/-- A job ends, whatever it comes to, and tables come to be at hand or cease to be. -/
inductive Work : Network → Network → Prop
  | ends {n : Network} {k i : Nat} {j : Job} (h : n.jobs[k]? = some (i, j)) (e : Execution) :
      Work n ({ n with jobs := n.jobs.eraseIdx k }.finish i j e)
  | tables (n : Network) (held : Worker → List String) :
      Work n { n with workers := n.workers.map fun w => { w with held := held w } }

abbrev Works : Network → Network → Prop := Relation.ReflTransGen Work

theorem Work.calms (h : Work n n') : n.Calms n' := by
  cases h with
  | @ends k i j _ e =>
    have hfewer : n.Calms { n with jobs := n.jobs.eraseIdx k } :=
      calms_of_slots ⟨rfl, rfl, rfl⟩ fun _ => rfl
    exact hfewer.trans (calms_finish _ i j e)
  | tables held =>
    refine calms_of_slots ⟨rfl, rfl, ?_⟩ fun i => ?_
    · rw [List.map_map]
      rfl
    · simp only [slot, List.getElem?_map]
      cases n.workers[i]? <;> rfl

theorem Works.calms (h : n.Works n') : n.Calms n' := by
  induction h with
  | refl => exact .refl n
  | tail _ hwork ih => exact ih.trans hwork.calms

theorem works_settle (n : Network) : n.Works n.settle := by
  rw [settle]
  generalize n.jobs.length = fuel
  induction fuel generalizing n with
  | zero => exact .refl
  | succ fuel ih =>
    rw [settleWithin]
    split
    · exact .refl
    · rename_i i j e others hnext
      obtain ⟨k, hk, rfl⟩ := nextJob_ok hnext
      exact .head (.ends hk e) (ih _)

theorem calms_settle (n : Network) : n.Calms n.settle := (works_settle n).calms

/-! ## Requests -/

theorem calms_control (i : Nat) (w : Worker) {r : Request} (hr : ∀ t, r ≠ .sendInstruction t) :
    n.Calms (n.control i w r).2 := by
  cases r with
  | sendInstruction t => exact absurd rfl (hr t)
  | setupWriters => exact (calms_update fun _ h => Slot.calms_setupWriters h).trans (calms_settle _)
  | setupReaders => exact (calms_setupReaders i w.location).trans (calms_settle _)
  | run => exact (calms_start i w).trans (calms_settle _)
  | abort task => exact (calms_update fun _ h => Slot.calms_abort h).trans (calms_settle _)
  | status | fetchResults | openStream => exact .refl n

theorem handle_snd (i : Nat) (w : Worker) (r : Request) : (n.handle i w r).2 = (n.control i w r).2 := by
  rw [handle]
  rcases n.control i w r with ⟨_ | _, _⟩ <;> rfl

theorem calms_call (l : Location) {r : Request} (hr : ∀ t, r ≠ .sendInstruction t) :
    n.Calms (n.call l r).2 := by
  rw [call]
  split
  · rename_i i _
    split
    · rename_i w _
      dsimp only
      rw [handle_snd]
      exact calms_control i w hr
    · exact .refl n
  · exact .refl n

theorem call_hosted (h : n.Hosts l i) (r : Request) : ∃ w, n.workers[i]? = some w ∧ w.location = l ∧
    n.call l r = (.ok (n.handle i w r).1, (n.control i w r).2) := by
  obtain ⟨w, hw, hl⟩ := h.worker
  refine ⟨w, hw, hl, ?_⟩
  rw [call, h.reach, ← handle_snd]
  simp only [hw]

/-- Who is told to abort a task is not at work for it any more. -/
theorem task_of_aborted (h : n.Hosts l i) (hwork : ((n.call l (.abort task)).2.slot i).AtWork) :
    ((n.call l (.abort task)).2.slot i).task ≠ some task := by
  obtain ⟨w, _, _, hcall⟩ := call_hosted h (.abort task)
  rw [hcall] at hwork ⊢
  obtain ⟨hbefore, htask⟩ := ((calms_settle (n.update i (·.abort task)).2).slots i).work hwork
  refine fun hsame => ?_
  have hheld : ((n.update i (·.abort task)).2.slot i).task = some task := htask.symm.trans hsame
  rw [update] at hbefore hheld
  cases habort : (n.slot i).abort task with
  | error e =>
    rw [habort] at hheld
    exact Slot.not_atWork_abort (by rw [habort]; rfl) hheld
  | ok s =>
    obtain ⟨_, rfl⟩ := Slot.abort_eq_ok habort
    rw [habort] at hbefore
    rw [slot_put_self i _ h.lt] at hbefore
    exact (n.slot i).not_atWork_reset hbefore

/-- Nobody has been brought to work, and none of these is at work for the task. -/
structure Frees (task : TaskId) (freed : List Location) (n n' : Network) : Prop where
  calms : n.Calms n'
  slots : ∀ l ∈ freed, ∀ i, n.Hosts l i → (n'.slot i).AtWork → (n'.slot i).task ≠ some task

theorem Frees.trans {freed freed' : List Location} (h : n.Frees task freed n')
    (h' : n'.Frees task freed' n'') : n.Frees task (freed ++ freed') n'' := by
  refine ⟨h.calms.trans h'.calms, fun l hl i hi hwork => ?_⟩
  rcases List.mem_append.mp hl with hl | hl
  · obtain ⟨hbefore, htask⟩ := (h'.calms.slots i).work hwork
    exact htask ▸ h.slots l hl i hi hbefore
  · exact h'.slots l hl i (h.calms.places.hosts hi) hwork

/-- Nobody has been brought to work but these, for this task. -/
structure Hires (task : TaskId) (hired : List Location) (n n' : Network) : Prop where
  places : n.SamePlaces n'
  slots : ∀ i, (n'.slot i).AtWork → (n.slot i).AtWork ∧ (n'.slot i).task = (n.slot i).task ∨
    (∃ l ∈ hired, n.Hosts l i) ∧ (n'.slot i).task = some task

variable {hired : List Location}

theorem Hires.refl (n : Network) (task : TaskId) : n.Hires task [] n :=
  ⟨(Calms.refl n).places, fun _ h => .inl ⟨h, rfl⟩⟩

theorem Hires.calms (h : n.Hires task hired n') (h' : n'.Calms n'') : n.Hires task hired n'' := by
  refine ⟨h.places.trans h'.places, fun i hwork => ?_⟩
  obtain ⟨hbefore, htask⟩ := (h'.slots i).work hwork
  rw [htask]
  exact h.slots i hbefore

theorem Hires.mono {others : List Location} (h : n.Hires task hired n') (hsub : hired ⊆ others) :
    n.Hires task others n' :=
  ⟨h.places, fun i hwork => (h.slots i hwork).imp_right
    fun ⟨⟨l, hl, hhosts⟩, htask⟩ => ⟨⟨l, hsub hl, hhosts⟩, htask⟩⟩

theorem Hires.receive {t : Instruction} (h : n.Hires t.task hired n') (hl : n.Hosts l i) (name : String) :
    n.Hires t.task (l :: hired) (n'.update i (·.receive name t)).2 := by
  have hmore := h.mono (List.subset_cons_self l hired)
  rw [update]
  split
  · exact hmore
  · rename_i s hreceive
    obtain ⟨_, _, _, _, hs⟩ := Slot.receive_eq_ok hreceive
    have htask : s.task = some t.task := by rw [hs]
    refine ⟨hmore.places.trans (alike_put i s).samePlaces, fun j hwork => ?_⟩
    dsimp only at hwork ⊢
    rcases slot_put_cases (n := n') i j s with hslot | ⟨rfl, hslot⟩
    · rw [hslot] at hwork ⊢
      exact hmore.slots j hwork
    · rw [hslot]
      exact .inr ⟨⟨l, List.mem_cons_self, hl⟩, htask⟩

theorem Hires.call {t : Instruction} (h : n.Hires t.task hired n') (hl : n.Hosts l i) :
    n.Hires t.task (l :: hired) (n'.call l (.sendInstruction t)).2 := by
  obtain ⟨w, _, _, hcall⟩ := call_hosted (h.places.hosts hl) (.sendInstruction t)
  rw [hcall]
  exact (h.receive hl w.location.name).calms (calms_settle _)

theorem atWork_of_refused {t : Instruction} {state : ExecutorState} (hl : n.Hosts l i)
    (h : (n.call l (.sendInstruction t)).1.bind Response.toAck =
      .error (.remote (ExecutorError.notAllowed "send_instruction" (.state state)).message)) :
    (n.slot i).AtWork := by
  obtain ⟨w, _, _, hcall⟩ := call_hosted hl (.sendInstruction t)
  rw [hcall, handle, control, control.acknowledge, update] at h
  cases hreceive : (n.slot i).receive w.location.name t with
  | error e =>
    rw [hreceive] at h
    exact Slot.atWork_of_message hreceive (RpcError.remote.inj (Except.error.inj h))
  | ok s =>
    rw [hreceive] at h
    cases h

end Network
end QueryCluster
