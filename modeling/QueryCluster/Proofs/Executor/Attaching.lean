import Mathlib.Data.List.Perm.Basic
import QueryCluster.Proofs.Executor.Progress

/-!
# Which reader has which output

Readers come for their streams in any order, and an output is found by the name of its reader. Requests of
readers that are not expected, that come again or that ask for another task are refused and change nothing.
When a node is started, the connections stand in the order of its outputs, however they came.
-/
namespace QueryCluster

/-- Outputs with the connections that readers of their names have opened. -/
def filled (outputs : List Location) (opened : List (String × StreamId)) : List Egress :=
  outputs.map fun l => ⟨l, opened.lookup l.name⟩

/-- The streams of a job are those that the readers of its node's outputs have opened, in the order of the
outputs. -/
structure Job.Serves (j : Job) (node : OperatorNode) (opened : List (String × StreamId)) : Prop where
  node_eq : j.node = node
  length : j.egress.length = node.outputs.length
  readers : ((node.outputs.map (·.name)).zip j.egress).Perm opened

section Filled

variable {outputs : List Location} {opened : List (String × StreamId)} {reader : String}
  {stream : StreamId}

theorem lookup_snoc (name : String) :
    (opened ++ [(reader, stream)]).lookup name =
      (opened.lookup name).or (if name = reader then some stream else none) := by
  rw [List.lookup_append, List.lookup_cons]
  by_cases hname : name = reader
  · simp [hname]
  · simp [hname, beq_false_of_ne hname]

theorem filled_snoc_of_notMem (h : reader ∉ outputs.map (·.name)) :
    filled outputs (opened ++ [(reader, stream)]) = filled outputs opened := by
  apply List.map_congr_left
  intro l hl
  have hname : l.name ≠ reader := by
    rintro rfl
    exact h (List.mem_map_of_mem hl)
  rw [lookup_snoc, if_neg hname, Option.or_none]

theorem fill_cons (l : Location) :
    Slot.fill reader stream (filled (l :: outputs) opened) =
      if l.name = reader ∧ opened.lookup l.name = none then
        some (⟨l, some stream⟩ :: filled outputs opened)
      else (Slot.fill reader stream (filled outputs opened)).map (⟨l, opened.lookup l.name⟩ :: ·) :=
  rfl

/-- A stream goes to the output of its reader's name, if that has none yet. -/
theorem fill_filled (hnames : (outputs.map (·.name)).Nodup) :
    Slot.fill reader stream (filled outputs opened) =
      if reader ∈ outputs.map (·.name) ∧ opened.lookup reader = none then
        some (filled outputs (opened ++ [(reader, stream)]))
      else none := by
  induction outputs with
  | nil => simp [filled, Slot.fill]
  | cons l outputs ih =>
    obtain ⟨hnew, hnames⟩ := List.nodup_cons.mp hnames
    simp only [fill_cons, ih hnames, List.map_cons, List.mem_cons]
    by_cases hl : l.name = reader
    · subst hl
      cases hlookup : opened.lookup l.name with
      | none =>
        have hhead : (opened ++ [(l.name, stream)]).lookup l.name = some stream := by
          simp [lookup_snoc, hlookup]
        have hothers : filled outputs (opened ++ [(l.name, stream)]) = filled outputs opened :=
          filled_snoc_of_notMem hnew
        simp only [filled] at hothers
        simp [filled, hhead, hothers]
      | some taken => simp
    · have hhead : (opened ++ [(reader, stream)]).lookup l.name = opened.lookup l.name := by
        rw [lookup_snoc, if_neg hl, Option.or_none]
      simp only [hl, Ne.symm hl, false_and, false_or, if_false]
      split
      · simp [filled, hhead]
      · rfl

end Filled

namespace Station

variable {name : String} {s s' : Station} {node : OperatorNode} {opened : List (String × StreamId)}

/-- The reader and the connection of a request for a stream that is granted. -/
def granted (s : Station) : Event → Option (String × StreamId)
  | .request (.openStream task reader) connection =>
    match s.slot.attach task reader connection with
    | .ok _ => some (reader.name, connection)
    | .error _ => none
  | _ => none

/-- What is granted in the course of some events, as it comes. -/
def grants (name : String) (s : Station) : List Event → List (String × StreamId)
  | [] => []
  | e :: events => (s.granted e).toList ++ grants name (s.step name e) events

/-- The connection that a request for a stream comes over. It brings no further request. -/
def opening : Event → Option StreamId
  | .request (.openStream _ _) connection => some connection
  | _ => none

theorem opening_of_granted {e : Event} {entry : String × StreamId} (h : s.granted e = some entry) :
    opening e = some entry.2 := by
  unfold granted at h
  split at h
  · split at h
    · cases h
      rfl
    · cases h
  · cases h

theorem grants_sublist (s : Station) (events : List Event) :
    ((grants name s events).map Prod.snd).Sublist (events.filterMap opening) := by
  induction events generalizing s with
  | nil => exact .slnil
  | cons e events ih =>
    cases hgranted : s.granted e with
    | none =>
      simp only [grants, hgranted, Option.toList_none, List.nil_append, List.filterMap_cons]
      split
      · exact ih _
      · exact (ih _).cons _
    | some entry =>
      simp only [grants, hgranted, Option.toList_some, List.singleton_append, List.map_cons,
        List.filterMap_cons, opening_of_granted hgranted]
      exact (ih _).cons_cons _

theorem grants_concat (s : Station) (events : List Event) (e : Event) :
    grants name s (events ++ [e]) =
      grants name s events ++ ((events.foldl (step name) s).granted e).toList := by
  induction events generalizing s with
  | nil => simp [grants]
  | cons first events ih => simp [grants, ih]

/-- What holds from the receipt of a node on while nothing is reset. -/
structure Filling (node : OperatorNode) (opened : List (String × StreamId)) (s : Station) : Prop where
  node_eq : s.slot.node = some node
  unopened : s.slot.state = .received → opened = []
  egress : s.slot.state ∈ [ExecutorState.writersReady, .readersReady] →
    s.slot.egress = filled node.outputs opened
  once : (opened.map Prod.fst).Nodup
  expected : ∀ entry ∈ opened, entry.1 ∈ node.outputs.map (·.name)

/-- Most steps leave the outputs alone. -/
theorem Filling.same (h : Filling node opened s) (hslot : s'.slot = s.slot) : Filling node opened s' where
  node_eq := by rw [hslot, h.node_eq]
  unopened := by
    rw [hslot]
    exact h.unopened
  egress := by
    rw [hslot]
    exact h.egress
  once := h.once
  expected := h.expected

/-- A node that was started has handed its outputs on. -/
theorem Filling.begun (h : Filling node opened s) (hnode : s'.slot.node = s.slot.node)
    (hstate : s'.Begun) : Filling node opened s' where
  node_eq := by rw [hnode, h.node_eq]
  unopened hreceived := by
    rw [Begun, hreceived] at hstate
    simp at hstate
  egress hwaiting := by
    rw [Begun] at hstate
    revert hstate hwaiting
    cases s'.slot.state <;> simp
  once := h.once
  expected := h.expected

theorem Filling.adopt_error (h : Filling node opened s) {x : Except ExecutorError Slot}
    (hx : x.isOk = false) : Filling node opened (s.adopt x) := by
  cases x with
  | error e => exact h
  | ok slot => cases hx

theorem Filling.setupWriters (h : Filling node opened s) :
    Filling node opened (s.adopt s.slot.setupWriters) := by
  cases hx : s.slot.setupWriters with
  | error e => exact h
  | ok slot =>
    obtain ⟨hstate, rfl⟩ := Slot.setupWriters_eq_ok hx
    obtain rfl := h.unopened hstate
    exact
      { node_eq := h.node_eq
        unopened := fun _ => rfl
        egress := fun _ => by simp [adopt, Slot.outputs, h.node_eq, filled]
        once := h.once
        expected := h.expected }

theorem once_snoc {reader : String} {stream : StreamId} (h : (opened.map Prod.fst).Nodup)
    (hnone : opened.lookup reader = none) : ((opened ++ [(reader, stream)]).map Prod.fst).Nodup := by
  have hnew : ∀ entry ∈ opened, entry.1 ≠ reader := by
    intro entry hentry heq
    have hother := List.lookup_eq_none_iff.mp hnone entry hentry
    simp [heq] at hother
  rw [List.map_append, List.map_singleton, List.nodup_append]
  refine ⟨h, List.nodup_singleton reader, ?_⟩
  simpa using fun a stream hentry => hnew (a, stream) hentry

theorem Filling.attach (h : Filling node opened s) (hnames : (node.outputs.map (·.name)).Nodup)
    (task : TaskId) (reader : Location) (stream : StreamId) :
    Filling node (opened ++ (s.granted (.request (.openStream task reader) stream)).toList)
      (s.adopt (s.slot.attach task reader stream)) := by
  cases hx : s.slot.attach task reader stream with
  | error e =>
    simp only [granted, hx, Option.toList_none, List.append_nil]
    exact h
  | ok slot =>
    obtain ⟨_, hstate, egress, hfill, rfl⟩ := Slot.attach_eq_ok hx
    rw [h.egress hstate, fill_filled hnames] at hfill
    split at hfill
    · next hfree =>
      cases hfill
      simp only [granted, hx, Option.toList_some]
      exact
        { node_eq := h.node_eq
          unopened := fun hreceived => by
            rw [show s.slot.state = .received from hreceived] at hstate
            simp at hstate
          egress := fun _ => rfl
          once := once_snoc h.once hfree.2
          expected := List.forall_mem_append.mpr ⟨h.expected, by simpa using hfree.1⟩ }
    · cases hfill

theorem Filling.start (h : Filling node opened s) {slot : Slot} {j : Job}
    (hstart : s.slot.start = .ok (slot, j)) :
    Filling node opened { s with slot, jobs := j :: s.jobs, started := j :: s.started } := by
  obtain ⟨_, _, _, _, rfl⟩ := Slot.start_eq_ok hstart
  exact h.begun rfl (by simp [Begun])

/-- The second half of setting up the inputs finds the outputs as they are. -/
theorem Filling.commit (h : Filling node opened s) (ho : Orderly s) {d : Dialling} (hd : d ∈ s.dials)
    (streams : List StreamId) :
    Filling node opened
      ({ s with dials := s.dials.erase d }.adopt (s.slot.commitReaders d.epoch streams)) := by
  cases hx : s.slot.commitReaders d.epoch streams with
  | error e => exact h.same rfl
  | ok slot =>
    obtain ⟨hepoch, rfl⟩ := Slot.commitReaders_eq_ok hx
    have hstate := ho.dialling d hd hepoch.symm
    exact
      { node_eq := h.node_eq
        unopened := nofun
        egress := fun _ => h.egress (by simp [hstate])
        once := h.once
        expected := h.expected }

theorem Filling.ended (h : Filling node opened s) {j : Job}
    (outcome : Except OperatorError (Option Split)) :
    Filling node opened { s with jobs := s.jobs.erase j, slot := s.slot.complete j.epoch outcome } := by
  by_cases hepoch : s.slot.epoch = j.epoch
  · apply h.begun
    · cases outcome <;> simp [Slot.complete, hepoch]
    · cases outcome <;> simp [Begun, Slot.complete, hepoch]
  · exact h.same (Slot.complete_of_ne hepoch outcome)

/-- A step that grants nothing to a reader. -/
theorem Filling.ungranted (h : Filling node opened s') {e : Event} (hnone : s.granted e = none) :
    Filling node (opened ++ (s.granted e).toList) s' := by
  rw [hnone, Option.toList_none, List.append_nil]
  exact h

theorem Filling.answer (h : Filling node opened s) (hnames : (node.outputs.map (·.name)).Nodup)
    {r : Request} {connection : StreamId} (hreset : s.resets name (.request r connection) = false) :
    Filling node (opened ++ (s.granted (.request r connection)).toList) (s.answer name connection r) := by
  cases r with
  | openStream task reader => exact h.attach hnames task reader connection
  | sendInstruction i =>
    apply Filling.ungranted _ rfl
    exact h.adopt_error hreset
  | abort task =>
    apply Filling.ungranted _ rfl
    exact h.adopt_error hreset
  | setupWriters =>
    apply Filling.ungranted _ rfl
    exact h.setupWriters
  | setupReaders =>
    apply Filling.ungranted _ rfl
    rw [Station.answer]
    split <;> exact h.same rfl
  | run =>
    apply Filling.ungranted _ rfl
    rw [Station.answer]
    split
    · next hstart => exact h.start hstart
    · exact h
  | status | fetchResults => exact h.ungranted rfl

theorem Filling.step (h : Filling node opened s) (ho : Orderly s)
    (hnames : (node.outputs.map (·.name)).Nodup) {e : Event} (hreset : s.resets name e = false) :
    Filling node (opened ++ (s.granted e).toList) (s.step name e) := by
  cases e with
  | request r connection => exact h.answer hnames hreset
  | dialled d streams =>
    apply Filling.ungranted _ rfl
    rw [Station.step]
    split
    · next hd => exact h.commit ho hd streams
    · exact h
  | lost d =>
    apply Filling.ungranted _ rfl
    exact h.same rfl
  | ended j outcome =>
    apply Filling.ungranted _ rfl
    rw [Station.step]
    split
    · exact h.ended outcome
    · exact h

/-- An executor that holds nothing takes any node of its own. -/
theorem resets_sent {i : Instruction} (hnode : i.node = .ok node) (hname : node.location.name = name) :
    (run name []).resets name (Event.sent i) = true := by
  subst hname
  exact isOk_iff.mpr ⟨_, Slot.receive_ok hnode (List.mem_cons_self ..)⟩

theorem filling_sent {before : List Event} {i : Instruction} (hnode : i.node = .ok node)
    (hsent : (run name before).resets name (Event.sent i) = true) :
    Filling node [] (run name (before ++ [Event.sent i])) := by
  obtain ⟨slot, hslot⟩ := isOk_iff.mp hsent
  obtain ⟨node', hnode', _, _, rfl⟩ := Slot.receive_eq_ok hslot
  obtain rfl := Except.ok.inj (hnode.symm.trans hnode')
  rw [run_concat]
  simp only [Event.sent, Station.step, Station.answer, hslot]
  exact
    { node_eq := rfl
      unopened := fun _ => rfl
      egress := fun hwaiting => by simp [adopt] at hwaiting
      once := List.nodup_nil
      expected := by simp }

theorem filling_run {before during : List Event} {i : Instruction} (hnode : i.node = .ok node)
    (hsent : (run name before).resets name (Event.sent i) = true)
    (hnames : (node.outputs.map (·.name)).Nodup)
    (hbroken : Unbroken name (before ++ [Event.sent i]) during)
    (halone : ∀ es, es <+: before ++ [Event.sent i] ++ during → (run name es).Alone) :
    Filling node (grants name (run name (before ++ [Event.sent i])) during)
      (run name (before ++ [Event.sent i] ++ during)) := by
  induction during using List.reverseRecOn with
  | nil =>
    rw [List.append_nil]
    exact filling_sent hnode hsent
  | append_singleton during e ih =>
    have hfront : during <+: during ++ [e] := List.prefix_append _ _
    have hlonger := (List.prefix_append_right_inj (before ++ [Event.sent i])).mpr hfront
    have h := ih (fun front e' h => hbroken front e' (h.trans hfront))
      fun es hes => halone es (hes.trans hlonger)
    have horderly := orderly_run fun es hes => halone es (hes.trans hlonger)
    have hreached : during.foldl (step name) (run name (before ++ [Event.sent i])) =
        run name (before ++ [Event.sent i] ++ during) := (List.foldl_append ..).symm
    have hnext := run_concat name (before ++ [Event.sent i] ++ during) e
    rw [grants_concat, hreached, ← List.append_assoc, hnext]
    exact h.step horderly hnames (hbroken during e (List.prefix_refl _))

end Station

/-! ## The start -/

section Start

variable {opened : List (String × StreamId)}

/-- Names with what is found under them are all that there is to find, if nothing else has been opened. -/
theorem zip_perm {names : List String} {streams : List StreamId} (hnames : names.Nodup)
    (honce : (opened.map Prod.fst).Nodup) (hexpected : ∀ entry ∈ opened, entry.1 ∈ names)
    (hstreams : streams.map some = names.map (opened.lookup ·)) : (names.zip streams).Perm opened := by
  have hlength : streams.length = names.length := by simpa using congrArg List.length hstreams
  have hzip : (names.zip streams).map Prod.fst = names := List.map_fst_zip (by simp [hlength])
  have hlookup : ∀ entry ∈ names.zip streams, opened.lookup entry.1 = some entry.2 := by
    intro entry hentry
    obtain ⟨k, hk⟩ := List.getElem?_of_mem hentry
    obtain ⟨hname, hstream⟩ := List.getElem?_zip_eq_some.mp hk
    have hplace := congrArg (·[k]?) hstreams
    simpa [hname, hstream] using hplace.symm
  have hzipped : ((names.zip streams).map Prod.fst).Nodup := by
    rw [hzip]
    exact hnames
  rw [List.perm_ext_iff_of_nodup (hzipped.of_map Prod.fst) (honce.of_map Prod.fst)]
  intro entry
  constructor
  · intro hentry
    exact (lookup_eq_some_iff_mem honce).mp (hlookup entry hentry)
  · intro hentry
    have hname := hexpected entry hentry
    rw [← hzip] at hname
    obtain ⟨other, hother, heq⟩ := List.mem_map.mp hname
    have hsame := hlookup other hother
    rw [heq, (lookup_eq_some_iff_mem honce).mpr hentry] at hsame
    rwa [Prod.ext heq (Option.some.inj hsame).symm] at hother

namespace Station

variable {s : Station} {node : OperatorNode} {slot : Slot} {j : Job}

theorem Filling.streams (h : s.Filling node opened) (hstart : s.slot.start = .ok (slot, j)) :
    j.egress.map some = (node.outputs.map (·.name)).map (opened.lookup ·) := by
  obtain ⟨hstate, hall, _, hj, _⟩ := Slot.start_eq_ok hstart
  have hegress := h.egress (by simp [hstate])
  rw [hegress, filled] at hall
  rw [hj, hegress, filled, List.filterMap_map, List.map_map]
  exact map_some_filterMap fun l hl => hall _ (List.mem_map_of_mem hl)

theorem Filling.serves (h : s.Filling node opened) (hnames : (node.outputs.map (·.name)).Nodup)
    (hstart : s.slot.start = .ok (slot, j)) : j.Serves node opened where
  node_eq := by
    obtain ⟨_, _, hnode, _, _⟩ := Slot.start_eq_ok hstart
    exact Option.some.inj (hnode.symm.trans h.node_eq)
  length := by simpa using congrArg List.length (h.streams hstart)
  readers := zip_perm hnames h.once h.expected (h.streams hstart)

end Station

end Start
end QueryCluster
