import QueryCluster.Executor.Network
import QueryCluster.Proofs.Outcome

/-!
# What the steps of a slot do

Each request on a slot that is in the right state goes well, and what it leaves in the slot is said
once for each; and once for each what it takes for the request to have gone well. A network that gets a new slot for one executor keeps all the others, and who is found
where.
-/
namespace QueryCluster

namespace Slot

variable {s : Slot} {task : TaskId} {node : OperatorNode}

theorem receive_ok {i : Instruction} (hnode : i.node = .ok node)
    (hstate : s.state ∈ [ExecutorState.idle, .done, .failed]) :
    s.receive node.location.name i =
      .ok { s.reset with task := some i.task, node := some node, state := .received } := by
  have hname : ¬node.location.name ≠ node.location.name := fun h => h rfl
  simp only [receive, hnode, requireState, hstate, Except.mapError, Except.bind, bind, if_neg hname]
  rfl

theorem setupWriters_ok (hnode : s.node = some node) (hstate : s.state = .received) :
    s.setupWriters = .ok { s with
      egress := node.outputs.map fun reader => { reader }, state := .writersReady } := by
  simp only [setupWriters, requireState, hstate, outputs, hnode]
  rfl

theorem beginReaders_ok (htask : s.task = some task) (hnode : s.node = some node)
    (hstate : s.state = .writersReady) : s.beginReaders = .ok ⟨s.epoch, task, node.inputs⟩ := by
  simp only [beginReaders, requireState, hstate, htask, inputs, hnode]
  rfl

theorem commitReaders_ok (streams : List StreamId) : s.commitReaders s.epoch streams =
    .ok { s with ingress := streams, live := s.live ++ streams, state := .readersReady } := by
  simp [commitReaders]

theorem attach_ok {reader : Location} {stream : StreamId} {egress : List Egress}
    (htask : s.task = some task) (hstate : s.state ∈ [ExecutorState.writersReady, .readersReady])
    (hfill : fill reader.name stream s.egress = some egress) :
    s.attach task reader stream = .ok { s with egress, live := s.live ++ [stream] } := by
  simp only [attach, requireTask, htask, requireState, hstate, hfill]
  rfl

/-- The job of a node all of whose outputs have their streams. -/
theorem start_ok (hnode : s.node = some node) (hstate : s.state = .readersReady)
    (hegress : ∀ e ∈ s.egress, e.stream.isSome) :
    s.start = .ok ({ s with ingress := [], egress := [], state := .running },
      ⟨s.epoch, node, s.ingress, s.egress.filterMap (·.stream)⟩) := by
  have hnone : s.egress.find? (·.stream.isNone) = none := by
    refine List.find?_eq_none.mpr fun e he => ?_
    rw [Bool.not_eq_true, Option.isNone_eq_false_iff]
    exact hegress e he
  simp only [start, requireState, hstate, hnone, hnode]
  rfl

section Accepted

variable {s' : Slot}

theorem requireState_eq_ok {request : String} {allowed : List ExecutorState} {u : Unit}
    (h : s.requireState request allowed = .ok u) : s.state ∈ allowed := by
  by_contra hstate
  rw [requireState, if_neg hstate] at h
  cases h

theorem requireTask_eq_ok {u : Unit} (h : s.requireTask task = .ok u) : s.task = some task := by
  by_contra htask
  rw [requireTask, if_neg htask] at h
  cases h

theorem receive_eq_ok {name : String} {i : Instruction} (h : s.receive name i = .ok s') :
    ∃ node, i.node = .ok node ∧ node.location.name = name ∧
      s.state ∈ [ExecutorState.idle, .done, .failed] ∧
      s' = { s.reset with task := some i.task, node := some node, state := .received } := by
  obtain ⟨node, hnode, h⟩ := bind_ok h
  by_cases hname : node.location.name = name
  · rw [if_neg (not_not.mpr hname)] at h
    obtain ⟨_, hstate, h⟩ := bind_ok h
    cases h
    exact ⟨node, mapError_ok hnode, hname, requireState_eq_ok hstate, rfl⟩
  · rw [if_pos hname] at h
    cases h

theorem setupWriters_eq_ok (h : s.setupWriters = .ok s') : s.state = .received ∧
    s' = { s with egress := s.outputs.map fun reader => { reader }, state := .writersReady } := by
  obtain ⟨_, hstate, h⟩ := bind_ok h
  cases h
  exact ⟨List.mem_singleton.mp (requireState_eq_ok hstate), rfl⟩

theorem beginReaders_eq_ok {d : Dialling} (h : s.beginReaders = .ok d) :
    s.state = .writersReady ∧ s.task = some d.task ∧ d.epoch = s.epoch ∧ d.inputs = s.inputs := by
  obtain ⟨_, hstate, h⟩ := bind_ok h
  cases htask : s.task with
  | none =>
    rw [htask] at h
    cases h
  | some task =>
    rw [htask] at h
    cases h
    exact ⟨List.mem_singleton.mp (requireState_eq_ok hstate), rfl, rfl, rfl⟩

theorem commitReaders_eq_ok {epoch : Nat} {streams : List StreamId}
    (h : s.commitReaders epoch streams = .ok s') : s.epoch = epoch ∧
    s' = { s with ingress := streams, live := s.live ++ streams, state := .readersReady } := by
  unfold commitReaders at h
  split at h
  · cases h
  · rename_i hepoch
    cases h
    exact ⟨not_not.mp hepoch, rfl⟩

theorem attach_eq_ok {reader : Location} {stream : StreamId}
    (h : s.attach task reader stream = .ok s') :
    s.task = some task ∧ s.state ∈ [ExecutorState.writersReady, .readersReady] ∧
      ∃ egress, fill reader.name stream s.egress = some egress ∧
        s' = { s with egress, live := s.live ++ [stream] } := by
  obtain ⟨_, htask, h⟩ := bind_ok h
  obtain ⟨_, hstate, h⟩ := bind_ok h
  refine ⟨requireTask_eq_ok htask, requireState_eq_ok hstate, ?_⟩
  split at h
  · cases h
  · rename_i egress hfill
    cases h
    exact ⟨egress, hfill, rfl⟩

theorem start_eq_ok {j : Job} (h : s.start = .ok (s', j)) : s.state = .readersReady ∧
    (∀ e ∈ s.egress, e.stream.isSome) ∧ s.node = some j.node ∧
    j = ⟨s.epoch, j.node, s.ingress, s.egress.filterMap (·.stream)⟩ ∧
    s' = { s with ingress := [], egress := [], state := .running } := by
  obtain ⟨_, hstate, h⟩ := bind_ok h
  cases hnone : s.egress.find? (·.stream.isNone) with
  | some e =>
    rw [hnone] at h
    cases h
  | none =>
    rw [hnone] at h
    cases hnode : s.node with
    | none =>
      rw [hnode] at h
      cases h
    | some node =>
      rw [hnode] at h
      cases h
      refine ⟨List.mem_singleton.mp (requireState_eq_ok hstate), fun e he => ?_, rfl, rfl, rfl⟩
      have hsome := List.find?_eq_none.mp hnone e he
      rwa [Bool.not_eq_true, Option.isNone_eq_false_iff] at hsome

theorem abort_eq_ok (h : s.abort task = .ok s') :
    (s.task = none ∨ s.task = some task) ∧ s' = s.reset := by
  unfold abort at h
  split at h
  · obtain ⟨_, htask, h⟩ := bind_ok h
    cases h
    exact ⟨.inr (requireTask_eq_ok htask), rfl⟩
  · rename_i hnone
    cases h
    exact ⟨.inl (Option.not_isSome_iff_eq_none.mp hnone), rfl⟩

end Accepted

/-- A stream goes to the output that is meant for its reader. -/
theorem fill_ok {outputs : List Location} {streams : Location → Option StreamId} {reader : Location}
    (hnames : (outputs.map (·.name)).Nodup) (hreader : reader ∈ outputs)
    (hnone : streams reader = none) (stream : StreamId) :
    fill reader.name stream (outputs.map fun l => ⟨l, streams l⟩) =
      some (outputs.map fun l => ⟨l, if l = reader then some stream else streams l⟩) := by
  induction outputs with
  | nil => cases hreader
  | cons l ls ih =>
    obtain ⟨hnot, hnames⟩ := List.nodup_cons.mp hnames
    by_cases hl : l = reader
    · subst hl
      have hothers : ∀ m ∈ ls, m ≠ l := fun m hm heq => hnot (heq ▸ List.mem_map_of_mem hm)
      simp only [List.map_cons, fill, hnone, and_self, if_true]
      congr 2
      exact List.map_congr_left fun m hm => by rw [if_neg (hothers m hm)]
    · have hmem : reader ∈ ls := (List.mem_cons.mp hreader).resolve_left fun h => hl h.symm
      have hname : l.name ≠ reader.name := fun h => hnot (List.mem_map.mpr ⟨reader, hmem, h.symm⟩)
      simp only [List.map_cons, fill, hname, false_and, if_false, hl, ih hnames hmem]
      rfl

/-- What a job that has been left behind comes to is dropped. -/
theorem complete_of_ne {epoch : Nat} (h : s.epoch ≠ epoch)
    (outcome : Except OperatorError (Option Split)) : s.complete epoch outcome = s := by
  simp only [complete, ne_eq, h, not_false_eq_true, if_true]

@[simp] theorem epoch_complete (epoch : Nat) (outcome : Except OperatorError (Option Split)) :
    (s.complete epoch outcome).epoch = s.epoch := by
  unfold complete
  split
  · rfl
  · cases outcome <;> rfl

theorem state_complete {epoch : Nat} {outcome : Except OperatorError (Option Split)}
    (h : s.state ∈ [ExecutorState.idle, .done, .failed]) :
    (s.complete epoch outcome).state ∈ [ExecutorState.idle, .done, .failed] := by
  unfold complete
  split
  · exact h
  · cases outcome <;> simp

end Slot

namespace Network

variable {n n' : Network}

/-- The same executors are found in the same places. -/
structure Alike (n n' : Network) : Prop where
  addressing : n'.addressing = n.addressing
  peers : n'.peers = n.peers
  workers : n'.workers.map (·.location) = n.workers.map (·.location)

theorem Alike.refl (n : Network) : n.Alike n := ⟨rfl, rfl, rfl⟩

theorem Alike.trans {n'' : Network} (h : n.Alike n') (h' : n'.Alike n'') : n.Alike n'' :=
  ⟨h'.addressing.trans h.addressing, h'.peers.trans h.peers, h'.workers.trans h.workers⟩

theorem findIdx?_location (p : Location → Bool) (ws : List Worker) :
    ws.findIdx? (fun w => p w.location) = (ws.map (·.location)).findIdx? p := by
  rw [List.findIdx?_map]
  rfl

/-- Who is where, and which peers abort a task when they are called. -/
structure SamePlaces (n n' : Network) : Prop where
  addressing : n'.addressing = n.addressing
  peers : n'.peers.map (fun p => (p.location, p.abort)) = n.peers.map fun p => (p.location, p.abort)
  workers : n'.workers.map (·.location) = n.workers.map (·.location)

theorem Alike.samePlaces (h : n.Alike n') : n.SamePlaces n' :=
  ⟨h.addressing, by rw [h.peers], h.workers⟩

theorem SamePlaces.trans {n'' : Network} (h : n.SamePlaces n') (h' : n'.SamePlaces n'') :
    n.SamePlaces n'' :=
  ⟨h'.addressing.trans h.addressing, h'.peers.trans h.peers, h'.workers.trans h.workers⟩

theorem SamePlaces.findIdx? (h : n.SamePlaces n') (p : Location → Bool) :
    n'.workers.findIdx? (fun w => p w.location) = n.workers.findIdx? (fun w => p w.location) := by
  rw [findIdx?_location, findIdx?_location, h.workers]

theorem SamePlaces.reach (h : n.SamePlaces n') (l : Location) : n'.reach l = n.reach l := by
  have hpeers : n'.peers.findIdx? (fun p => decide (p.location = l)) =
      n.peers.findIdx? (fun p => decide (p.location = l)) := by
    have hmap : ∀ ps : List Peer, ps.findIdx? (fun p => decide (p.location = l)) =
        (ps.map fun p => (p.location, p.abort)).findIdx? (fun p => decide (p.1 = l)) := fun ps => by
      rw [List.findIdx?_map]
      rfl
    rw [hmap, hmap, h.peers]
  simp only [Network.reach, h.addressing, hpeers, h.findIdx? fun m => decide (m = l),
    h.findIdx? fun m => decide (m.port = l.port)]

theorem Alike.reach (h : n.Alike n') (l : Location) : n'.reach l = n.reach l :=
  h.samePlaces.reach l

/-- An executor is found at its location. -/
structure Hosts (n : Network) (l : Location) (i : Nat) : Prop where
  reach : n.reach l = some (.worker i)
  worker : ∃ w, n.workers[i]? = some w ∧ w.location = l

theorem SamePlaces.hosts (h : n.SamePlaces n') {l : Location} {i : Nat} (hl : n.Hosts l i) :
    n'.Hosts l i := by
  obtain ⟨w, hw, hlocation⟩ := hl.worker
  refine ⟨(h.reach l).trans hl.reach, ?_⟩
  have hsame : (n'.workers.map (·.location))[i]? = some w.location := by
    rw [h.workers, List.getElem?_map, hw]
    rfl
  rw [List.getElem?_map] at hsame
  obtain ⟨w', hw', heq⟩ := Option.map_eq_some_iff.mp hsame
  exact ⟨w', hw', heq.trans hlocation⟩

theorem Alike.hosts (h : n.Alike n') {l : Location} {i : Nat} (hl : n.Hosts l i) : n'.Hosts l i :=
  h.samePlaces.hosts hl

theorem Hosts.slot {l : Location} {i : Nat} (h : n.Hosts l i) :
    ∃ w, n.workers[i]? = some w ∧ w.location = l ∧ w.slot = n.slot i := by
  obtain ⟨w, hw, hl⟩ := h.worker
  exact ⟨w, hw, hl, by rw [Network.slot, hw]; rfl⟩

theorem Hosts.lt {l : Location} {i : Nat} (h : n.Hosts l i) : i < n.workers.length := by
  obtain ⟨w, hw, _⟩ := h.worker
  exact (List.getElem?_eq_some_iff.mp hw).1

/-- One place is no other. -/
theorem Hosts.unique {l m : Location} {i : Nat} (h : n.Hosts l i) (h' : n.Hosts m i) : l = m := by
  obtain ⟨w, hw, rfl⟩ := h.worker
  obtain ⟨w', hw', rfl⟩ := h'.worker
  rw [hw] at hw'
  rw [Option.some.inj hw']

section Frame

variable (i j : Nat) (s : Slot) (streams : List StreamId) (sent : List Bytes) (c : Connection)

@[simp] theorem slot_close : (n.close streams).slot j = n.slot j := rfl

@[simp] theorem slot_deliver : (n.deliver streams sent).slot j = n.slot j := rfl

@[simp] theorem slot_connect : (n.connect c).slot j = n.slot j := rfl

@[simp] theorem jobs_put : (n.put i s).jobs = n.jobs := rfl

@[simp] theorem jobs_deliver : (n.deliver streams sent).jobs = n.jobs := rfl

@[simp] theorem jobs_connect : (n.connect c).jobs = n.jobs := rfl

@[simp] theorem length_connections_put : (n.put i s).connections.length = n.connections.length := by
  simp [put, close]

@[simp] theorem length_connections_deliver :
    (n.deliver streams sent).connections.length = n.connections.length := by
  simp [deliver]

@[simp] theorem length_connections_connect :
    (n.connect c).connections.length = n.connections.length + 1 := by
  simp [connect]

theorem alike_put : n.Alike (n.put i s) := by
  refine ⟨rfl, rfl, List.ext_getElem? fun k => ?_⟩
  simp only [put, List.getElem?_map, List.getElem?_modify]
  rcases n.workers[k]? with _ | w
  · rfl
  · simp only [Option.map_some]
    split <;> rfl

theorem slot_put_self (h : i < n.workers.length) : (n.put i s).slot i = s := by
  simp [slot, put, List.getElem?_eq_getElem h]

theorem slot_put_of_ne {i j : Nat} (h : j ≠ i) : (n.put i s).slot j = n.slot j := by
  simp only [slot, put, List.getElem?_modify]
  rcases n.workers[j]? with _ | w
  · rfl
  · simp [Ne.symm h]

theorem slot_put_cases : (n.put i s).slot j = n.slot j ∨ j = i ∧ (n.put i s).slot j = s := by
  by_cases hj : j = i
  · subst hj
    by_cases hlt : j < n.workers.length
    · exact .inr ⟨rfl, slot_put_self j s hlt⟩
    · have hnone : ∀ m : Network, m.workers.length = n.workers.length → m.slot j = {} := by
        intro m hm
        rw [slot, List.getElem?_eq_none (by omega)]
        rfl
      exact .inl ((hnone _ (List.length_modify ..)).trans (hnone n rfl).symm)
  · exact .inl (slot_put_of_ne s hj)

end Frame

theorem update_ok {i : Nat} {step : Slot → Except ExecutorError Slot} {s : Slot}
    (h : step (n.slot i) = .ok s) : n.update i step = (.ok (), n.put i s) := by
  rw [update, h]

theorem finish_eq (n : Network) (i : Nat) (j : Job) (e : Execution) :
    ∃ outcome, n.finish i j e =
      (n.deliver j.egress e.sent).put i ((n.slot i).complete j.epoch outcome) := ⟨_, rfl⟩

theorem slot_finish (n : Network) (i : Nat) (j : Job) (e : Execution) :
    ∃ outcome, ∀ l, (n.finish i j e).slot l = n.slot l ∨
      l = i ∧ (n.finish i j e).slot l = (n.slot l).complete j.epoch outcome := by
  obtain ⟨outcome, hfinish⟩ := n.finish_eq i j e
  refine ⟨outcome, fun l => ?_⟩
  have hput := slot_put_cases (n := n.deliver j.egress e.sent) i l ((n.slot i).complete j.epoch outcome)
  rw [hfinish]
  rcases hput with h | ⟨rfl, h⟩
  · exact .inl h
  · exact .inr ⟨rfl, h⟩

theorem alike_finish (n : Network) (i : Nat) (j : Job) (e : Execution) : n.Alike (n.finish i j e) := by
  obtain ⟨outcome, hfinish⟩ := n.finish_eq i j e
  have hdeliver : n.Alike (n.deliver j.egress e.sent) := ⟨rfl, rfl, rfl⟩
  exact hfinish ▸ hdeliver.trans (alike_put i _)

theorem nextJob_ok {jobs others : List (Nat × Job)} {found : Nat × Job × Execution}
    (h : n.nextJob jobs = some (found, others)) :
    ∃ k, jobs[k]? = some (found.1, found.2.1) ∧ others = jobs.eraseIdx k := by
  induction jobs generalizing others with
  | nil => cases h
  | cons job jobs ih =>
    obtain ⟨i, j⟩ := job
    rw [Network.nextJob] at h
    split at h
    · cases h
      exact ⟨0, rfl, rfl⟩
    · obtain ⟨⟨_, rest⟩, hfound, h⟩ := Option.map_eq_some_iff.mp h
      cases h
      obtain ⟨k, hk, rfl⟩ := ih hfound
      exact ⟨k + 1, hk, rfl⟩

end Network
end QueryCluster
