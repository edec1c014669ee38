import QueryCluster.Proofs.Codec.Nodes
import QueryCluster.Proofs.Graph.Assembly
import QueryCluster.Proofs.Scheduler.Lists
import QueryCluster.Proofs.Scheduler.Rollout

/-!
# What a dispatch under way has brought about

Each node is known by how far its call has come. A slot that has been told of a node keeps it until
the node runs, no job that was left behind gets in its way, and its outputs have exactly the streams
that readers have opened so far. Every step of every call keeps this, and so no step can fail.
-/
namespace QueryCluster

theorem nodup_snoc {α : Type} {as : List α} {a : α} (h : as.Nodup) (ha : a ∉ as) :
    (as ++ [a]).Nodup := List.concat_eq_append ▸ List.Nodup.concat ha h

/-- The stream that a writer gave to a reader. -/
def streamOf (log : List Attachment) (writer reader : Location) : Option StreamId :=
  (log.find? fun a => a.writer = writer ∧ a.reader = reader).map (·.stream)

theorem streamOf_append {log : List Attachment} {writer reader : Location}
    (h : streamOf log writer reader = none) (stream : StreamId) (u m : Location) :
    streamOf (log ++ [⟨writer, reader, stream⟩]) u m =
      if u = writer ∧ m = reader then some stream else streamOf log u m := by
  rw [streamOf, List.find?_append, List.find?_singleton]
  by_cases heq : u = writer ∧ m = reader
  · obtain ⟨rfl, rfl⟩ := heq
    rw [Option.map_eq_none_iff.mp h, Option.none_or, if_pos (by simp), if_pos ⟨rfl, rfl⟩]
    rfl
  · have hne : ¬(writer = u ∧ reader = m) := fun h => heq ⟨h.1.symm, h.2.symm⟩
    rw [if_neg heq, if_neg (by simpa using hne), Option.or_none]
    rfl

theorem streamOf_eq_none {log : List Attachment} {writer reader : Location} :
    streamOf log writer reader = none ↔ (writer, reader) ∉ log.map fun a => (a.writer, a.reader) := by
  simp only [streamOf, Option.map_eq_none_iff, List.find?_eq_none, List.mem_map, not_exists, not_and]
  constructor
  · intro h a ha heq
    obtain ⟨rfl, rfl⟩ := Prod.mk.inj heq
    exact h a ha (by simp)
  · intro h a ha heq
    obtain ⟨rfl, rfl⟩ := of_decide_eq_true heq
    exact h a ha rfl

/-- How far a node has been brought. -/
inductive Readiness where
  | fresh
  | received
  | writing
  | dialling (d : Dialling) (opened : List StreamId) (rest : List Location)
  | reading
  | running
  /-- A call has failed. -/
  | lost

def Progression.readiness : Phase → Progression → Readiness
  | .sendInstruction, waiting => .fresh
  | .sendInstruction, answered (.ok _) => .received
  | .setupWriters, waiting => .received
  | .setupWriters, answered (.ok _) => .writing
  | .setupReaders, waiting => .writing
  | .setupReaders, dialling d opened rest => .dialling d opened rest
  | .setupReaders, answered (.ok _) => .reading
  | .run, waiting => .reading
  | .run, answered (.ok _) => .running
  | _, _ => .lost

/-- A call that went well has brought its node to where the next phase takes it up. -/
theorem Progression.readiness_next {phase next : Phase} (hnext : phase.next? = some next)
    {c : Progression} (hc : c.isFine) : c.readiness phase = Progression.waiting.readiness next := by
  cases c with
  | waiting | dialling => cases hc
  | answered x =>
    cases x with
    | error e => cases hc
    | ok u => cases phase <;> cases hnext <;> rfl

theorem Phase.ne_run_of_next {phase next : Phase} (hnext : phase.next? = some next) : phase ≠ .run := by
  rintro rfl
  cases hnext

theorem Phase.first_of_next {phase next : Phase} (hnext : phase.next? = some next)
    (hearly : next = .sendInstruction ∨ next = .setupWriters) : phase = .sendInstruction := by
  cases phase <;> cases hnext <;> rcases hearly with hearly | hearly <;> cases hearly
  rfl

/-- A slot holds a node of a task, and no job of an earlier one can touch it. -/
structure Slot.Holds (s : Slot) (task : TaskId) (node : OperatorNode) (i : Nat)
    (jobs : List (Nat × Job)) : Prop where
  task : s.task = some task
  node : s.node = some node
  alone : ∀ x ∈ jobs, x.1 = i → x.2.epoch < s.epoch

/-- Slots that differ in nothing but their outputs and what they keep open. -/
structure Slot.Same (s s' : Slot) : Prop where
  task : s'.task = s.task
  node : s'.node = s.node
  epoch : s'.epoch = s.epoch
  state : s'.state = s.state
  ingress : s'.ingress = s.ingress

/-- The outputs of a node, with the streams that have been opened. -/
def OperatorNode.egress (n : OperatorNode) (log : List Attachment) : List Egress :=
  n.outputs.map fun l => ⟨l, streamOf log n.location l⟩

/-- A node has opened its first inputs and none of the rest. -/
structure OperatorNode.Opened (n : OperatorNode) (log : List Attachment) (opened : List StreamId)
    (rest : List Location) : Prop where
  inputs : ∃ front, n.inputs = front ++ rest ∧
    opened.map some = front.map (streamOf log · n.location)
  rest : ∀ u ∈ rest, streamOf log u n.location = none

/-- What the slot of a node is like. -/
def OperatorNode.Stands (n : OperatorNode) (task : TaskId) (i : Nat) (jobs : List (Nat × Job))
    (log : List Attachment) (s : Slot) : Readiness → Prop
  | .fresh => s.state ∈ [ExecutorState.idle, .done, .failed]
  | .received => s.Holds task n i jobs ∧ s.state = .received
  | .writing => s.Holds task n i jobs ∧ s.state = .writersReady ∧ s.egress = n.egress log ∧
    n.Opened log [] n.inputs
  | .dialling d opened rest => s.Holds task n i jobs ∧ s.state = .writersReady ∧
    s.egress = n.egress log ∧ n.Opened log opened rest ∧ d.epoch = s.epoch ∧ d.task = task
  | .reading => s.Holds task n i jobs ∧ s.state = .readersReady ∧ s.egress = n.egress log ∧
    n.Opened log s.ingress []
  | .running => True
  | .lost => False

namespace OperatorNode

variable {n : OperatorNode} {task : TaskId} {i : Nat} {jobs jobs' : List (Nat × Job)}
  {log : List Attachment} {s : Slot} {readiness : Readiness} {u m : Location}

theorem Opened.all {opened : List StreamId} (h : n.Opened log opened []) :
    opened.map some = n.inputs.map (streamOf log · n.location) := by
  obtain ⟨front, hinputs, hopened⟩ := h.inputs
  rw [hinputs, List.append_nil]
  exact hopened

theorem Opened.mem_inputs {opened : List StreamId} {u : Location} {rest : List Location}
    (h : n.Opened log opened (u :: rest)) : u ∈ n.inputs := by
  obtain ⟨front, hinputs, _⟩ := h.inputs
  rw [hinputs]
  exact List.mem_append_right _ List.mem_cons_self

theorem Opened.isSome {opened : List StreamId} (h : n.Opened log opened []) {u : Location}
    (hu : u ∈ n.inputs) : (streamOf log u n.location).isSome := by
  have hmem : streamOf log u n.location ∈ opened.map some := h.all ▸ List.mem_map.mpr ⟨u, hu, rfl⟩
  obtain ⟨stream, _, hstream⟩ := List.mem_map.mp hmem
  rw [← hstream]
  rfl

/-- Jobs that are gone, and jobs elsewhere, are of no concern. -/
theorem Stands.mono (h : n.Stands task i jobs log s readiness)
    (hjobs : ∀ x ∈ jobs', x ∈ jobs ∨ x.1 ≠ i) : n.Stands task i jobs' log s readiness := by
  have hholds : s.Holds task n i jobs → s.Holds task n i jobs' := fun h =>
    ⟨h.task, h.node, fun x hx hi => h.alone x ((hjobs x hx).resolve_right fun hne => hne hi) hi⟩
  cases readiness with
  | fresh | running | lost => exact h
  | received | writing | dialling | reading => exact ⟨hholds h.1, h.2⟩

/-- A job that ends leaves the slot of a node as it is, or fresh. -/
theorem Stands.complete (h : n.Stands task i jobs log s readiness) {epoch : Nat}
    (hjob : ∃ x ∈ jobs, x.1 = i ∧ x.2.epoch = epoch)
    (outcome : Except OperatorError (Option Split)) :
    n.Stands task i jobs log (s.complete epoch outcome) readiness := by
  obtain ⟨x, hx, hi, rfl⟩ := hjob
  have hsame : s.Holds task n i jobs → s.complete x.2.epoch outcome = s := fun h =>
    Slot.complete_of_ne (Nat.ne_of_gt (h.alone x hx hi)) outcome
  cases readiness with
  | fresh => exact Slot.state_complete h
  | running | lost => exact h
  | received | writing | dialling | reading =>
    rw [hsame h.1]
    exact h

theorem egress_append (hnone : streamOf log u m = none) (stream : StreamId) :
    n.egress (log ++ [⟨u, m, stream⟩]) = n.outputs.map fun l =>
      ⟨l, if n.location = u ∧ l = m then some stream else streamOf log n.location l⟩ := by
  simp only [egress, streamOf_append hnone]

theorem egress_append_of_ne (hnone : streamOf log u m = none) (hne : n.location ≠ u)
    (stream : StreamId) : n.egress (log ++ [⟨u, m, stream⟩]) = n.egress log := by
  simp only [egress_append hnone, hne, false_and, if_false]
  rfl

theorem Opened.append {opened : List StreamId} {rest : List Location} (h : n.Opened log opened rest)
    (hnone : streamOf log u m = none) (hne : n.location ≠ m) (stream : StreamId) :
    n.Opened (log ++ [⟨u, m, stream⟩]) opened rest := by
  have hsame : ∀ l, streamOf (log ++ [⟨u, m, stream⟩]) l n.location = streamOf log l n.location :=
    fun l => by rw [streamOf_append hnone, if_neg fun h => hne h.2]
  exact ⟨by simpa only [hsame] using h.inputs, by simpa only [hsame] using h.rest⟩

/-- The streams of outputs that all have one. -/
theorem egress_streams (h : ∀ l ∈ n.outputs, (streamOf log n.location l).isSome) :
    ((n.egress log).filterMap (·.stream)).map some =
      n.outputs.map (streamOf log n.location ·) := by
  rw [egress, List.filterMap_map]
  exact map_some_filterMap h

/-- The next input is opened. -/
theorem Opened.next {opened : List StreamId} {rest : List Location}
    (h : n.Opened log opened (u :: rest)) (hnodup : n.inputs.Nodup) (stream : StreamId) :
    n.Opened (log ++ [⟨u, n.location, stream⟩]) (opened ++ [stream]) rest := by
  have hnone := h.rest u List.mem_cons_self
  obtain ⟨front, hinputs, hopened⟩ := h.inputs
  rw [hinputs] at hnodup
  obtain ⟨_, hrest, hdisjoint⟩ := List.nodup_append.mp hnodup
  have hsame : ∀ l, l ≠ u →
      streamOf (log ++ [⟨u, n.location, stream⟩]) l n.location = streamOf log l n.location :=
    fun l hl => by rw [streamOf_append hnone, if_neg fun h => hl h.1]
  refine ⟨⟨front ++ [u], by rw [hinputs, List.append_assoc]; rfl, ?_⟩, fun l hl => ?_⟩
  · rw [List.map_append, List.map_append, hopened]
    congr 1
    · refine List.map_congr_left fun l hl => (hsame l fun heq => ?_).symm
      exact hdisjoint l hl u List.mem_cons_self heq
    · rw [List.map_singleton, List.map_singleton, streamOf_append hnone, if_pos ⟨rfl, rfl⟩]
  · rw [hsame l fun heq => (List.nodup_cons.mp hrest).1 (heq ▸ hl)]
    exact h.rest l (List.mem_cons_of_mem _ hl)

/-- A stream is opened between two others, or at the writer itself. -/
theorem Stands.append {s' : Slot} (h : n.Stands task i jobs log s readiness)
    (hnone : streamOf log u m = none) (hne : n.location ≠ m) (stream : StreamId)
    (hsame : s.Same s')
    (hegress : s.egress = n.egress log → s'.egress = n.egress (log ++ [⟨u, m, stream⟩])) :
    n.Stands task i jobs (log ++ [⟨u, m, stream⟩]) s' readiness := by
  have hholds : s.Holds task n i jobs → s'.Holds task n i jobs := fun h =>
    ⟨hsame.task.trans h.task, hsame.node.trans h.node, fun x hx hi => hsame.epoch ▸ h.alone x hx hi⟩
  cases readiness with
  | fresh => exact (congrArg (· ∈ [ExecutorState.idle, .done, .failed]) hsame.state).mpr h
  | running | lost => exact h
  | received => exact ⟨hholds h.1, hsame.state.trans h.2⟩
  | writing =>
    obtain ⟨h, hstate, hold, hopened⟩ := h
    exact ⟨hholds h, hsame.state.trans hstate, hegress hold, hopened.append hnone hne stream⟩
  | dialling d opened rest =>
    obtain ⟨h, hstate, hold, hopened, hepoch, htask⟩ := h
    exact ⟨hholds h, hsame.state.trans hstate, hegress hold, hopened.append hnone hne stream,
      hepoch.trans hsame.epoch.symm, htask⟩
  | reading =>
    obtain ⟨h, hstate, hold, hopened⟩ := h
    exact ⟨hholds h, hsame.state.trans hstate, hegress hold,
      hsame.ingress ▸ hopened.append hnone hne stream⟩

end OperatorNode

/-- A complete graph on executors that names tell apart. -/
structure Roster (ns : List OperatorNode) : Prop where
  wired : Plan.Wired ns
  places : (Plan.placesOf ns).Nodup
  outputs : ∀ n ∈ ns, (n.outputs.map (·.name)).Nodup

/-- An instruction that carries a node of a task to its executor. -/
structure Assignment.MeantFor (task : TaskId) (n : OperatorNode) (a : Assignment) : Prop where
  location : a.location = n.location
  task : a.instruction.task = task
  node : a.instruction.node = .ok n

def Meant (task : TaskId) (ns : List OperatorNode) (nodes : List Assignment) : Prop :=
  List.Forall₂ (fun n a => Assignment.MeantFor task n a) ns nodes

theorem Meant.at {task : TaskId} {ns : List OperatorNode} {nodes : List Assignment}
    (h : Meant task ns nodes) {k : Nat} {n : OperatorNode} (hn : ns[k]? = some n) :
    ∃ a, nodes[k]? = some a ∧ a.MeantFor task n := by
  obtain ⟨hk, rfl⟩ := List.getElem?_eq_some_iff.mp hn
  have hk' : k < nodes.length := h.length_eq ▸ hk
  exact ⟨nodes[k], List.getElem?_eq_getElem hk', h.get hk hk'⟩

/-- What holds of a dispatch under way. -/
structure Rollout.Sound (task : TaskId) (ns : List OperatorNode) (host : Location → Nat)
    (r : Rollout) : Prop where
  calls : r.calls.length = ns.length
  hosts : ∀ n ∈ ns, r.network.Hosts n.location (host n.location)
  epochs : ∀ x ∈ r.network.jobs, x.2.epoch ≤ (r.network.slot x.1).epoch
  stands : ∀ (k : Nat) (n : OperatorNode) (c : Progression), ns[k]? = some n →
    r.calls[k]? = some c →
    n.Stands task (host n.location) r.network.jobs r.attached (r.network.slot (host n.location))
      (c.readiness r.phase)
  early : r.phase = .sendInstruction ∨ r.phase = .setupWriters → r.attached = []
  edges : ∀ a ∈ r.attached, ∃ u ∈ ns, u.location = a.writer ∧ a.reader ∈ u.outputs
  once : (r.attached.map fun a => (a.writer, a.reader)).Nodup
  streams : (r.attached.map (·.stream)).Nodup
  open_ : ∀ a ∈ r.attached, a.stream < r.network.connections.length
  wired : r.phase = .run → ∀ m ∈ ns, ∀ u ∈ m.inputs, (streamOf r.attached u m.location).isSome
  unstarted : r.phase ≠ .run → r.started = []
  started : ∀ x ∈ r.started, ∃ n ∈ ns, n.location = x.1 ∧ x.2.node = n ∧
    x.2.ingress.map some = n.inputs.map (streamOf r.attached · n.location) ∧
    x.2.egress.map some = n.outputs.map (streamOf r.attached n.location ·)
  startedOnce : (r.started.map (·.1)).Nodup
  running : r.phase = .run → ∀ (k : Nat) (n : OperatorNode) (c : Progression),
    ns[k]? = some n → r.calls[k]? = some c → (n.location ∈ r.started.map (·.1) ↔ c.isFine)

/-- A network with another slot for one executor. -/
structure Network.Reslotted (n : Network) (i : Nat) (s : Slot) (n' : Network) : Prop where
  alike : n.Alike n'
  slot : n'.slot i = s
  others : ∀ j ≠ i, n'.slot j = n.slot j
  connections : n.connections.length ≤ n'.connections.length

namespace Network

variable {n : Network} {i : Nat}

theorem Reslotted.refl (n : Network) (i : Nat) : n.Reslotted i (n.slot i) n :=
  ⟨.refl n, rfl, fun _ _ => rfl, Nat.le_refl _⟩

theorem reslotted_put (hi : i < n.workers.length) (s : Slot) : n.Reslotted i s (n.put i s) :=
  ⟨alike_put i s, slot_put_self i s hi, fun _ hj => slot_put_of_ne s hj, by simp⟩

/-- What starting a node does to the network. -/
theorem start_eq {s : Slot} {job : Job} (hi : i < n.workers.length)
    (h : (n.slot i).start = .ok (s, job)) (w : Worker) :
    ∃ n', n.start i w = (.ok (), n') ∧ n.Reslotted i s n' ∧ n'.jobs = n.jobs ++ [(i, job)] := by
  have hput := reslotted_put hi s
  rw [start, h]
  refine ⟨_, rfl, ⟨hput.alike.trans ⟨rfl, rfl, rfl⟩, hput.slot, hput.others, ?_⟩, rfl⟩
  exact Nat.le_of_eq (by simp)

end Network

namespace Rollout.Sound

variable {task : TaskId} {ns : List OperatorNode} {host : Location → Nat} {r : Rollout}
  {k : Nat} {n : OperatorNode}

theorem exists_call (h : r.Sound task ns host) (hn : ns[k]? = some n) : ∃ c, r.calls[k]? = some c :=
  ⟨_, List.getElem?_eq_getElem (h.calls ▸ (List.getElem?_eq_some_iff.mp hn).1)⟩

theorem exists_node (h : r.Sound task ns host) {c : Progression} (hc : r.calls[k]? = some c) :
    ∃ n, ns[k]? = some n :=
  ⟨_, List.getElem?_eq_getElem (h.calls ▸ (List.getElem?_eq_some_iff.mp hc).1)⟩

theorem call_eq_none (h : r.Sound task ns host) (hn : ns[k]? = none) : r.calls[k]? = none := by
  rw [List.getElem?_eq_none_iff] at hn ⊢
  rwa [h.calls]

theorem host_ne (h : r.Sound task ns host) (hr : Roster ns) {j : Nat} {m : OperatorNode}
    (hn : ns[k]? = some n) (hm : ns[j]? = some m) (hne : j ≠ k) :
    host m.location ≠ host n.location := by
  intro heq
  have hsame := (h.hosts m (List.mem_of_getElem? hm)).unique
    (heq ▸ h.hosts n (List.mem_of_getElem? hn))
  exact hne (index_eq_of_map hr.places hm hn hsame)

/-- A call after one has gone on: that call, or the call of another node, which is as it was. -/
theorem set_cases (h : r.Sound task ns host) (hr : Roster ns) (hn : ns[k]? = some n)
    {c c' : Progression} {j : Nat} {m : OperatorNode} (hm : ns[j]? = some m)
    (hc : (r.calls.set k c)[j]? = some c') :
    (j = k ∧ m = n ∧ c' = c) ∨ (host m.location ≠ host n.location ∧ r.calls[j]? = some c') := by
  by_cases hjk : j = k
  · subst hjk
    obtain ⟨old, hold⟩ := h.exists_call hn
    rw [List.getElem?_set_self (List.getElem?_eq_some_iff.mp hold).1] at hc
    exact .inl ⟨rfl, Option.some.inj (hm.symm.trans hn), (Option.some.inj hc).symm⟩
  · rw [List.getElem?_set_ne (Ne.symm hjk)] at hc
    exact .inr ⟨h.host_ne hr hn hm hjk, hc⟩

section Reslotted

variable {network : Network} {s : Slot} {c : Progression}

theorem epochs_of_reslotted (h : r.Sound task ns host)
    (hnet : r.network.Reslotted (host n.location) s network)
    (hepoch : (r.network.slot (host n.location)).epoch ≤ s.epoch)
    (hjobs : ∀ x ∈ network.jobs, x ∈ r.network.jobs ∨ x.1 = host n.location ∧ x.2.epoch ≤ s.epoch) :
    ∀ x ∈ network.jobs, x.2.epoch ≤ (network.slot x.1).epoch := by
  intro x hx
  rcases hjobs x hx with hx | ⟨hi, hle⟩
  · have hold := h.epochs x hx
    by_cases hi : x.1 = host n.location
    · rw [hi] at hold ⊢
      rw [hnet.slot]
      exact Nat.le_trans hold hepoch
    · rw [hnet.others _ hi]
      exact hold
  · rw [hi, hnet.slot]
    exact hle

/-- Only the node whose slot changed has come further. -/
theorem stands_of_reslotted (h : r.Sound task ns host) (hr : Roster ns) (hn : ns[k]? = some n)
    (hnet : r.network.Reslotted (host n.location) s network)
    (hjobs : ∀ x ∈ network.jobs, x ∈ r.network.jobs ∨ x.1 = host n.location)
    (hstands : n.Stands task (host n.location) network.jobs r.attached s (c.readiness r.phase))
    (j : Nat) (m : OperatorNode) (c' : Progression) (hm : ns[j]? = some m)
    (hc : (r.calls.set k c)[j]? = some c') :
    m.Stands task (host m.location) network.jobs r.attached (network.slot (host m.location))
      (c'.readiness r.phase) := by
  rcases h.set_cases hr hn hm hc with ⟨rfl, rfl, rfl⟩ | ⟨hother, hc⟩
  · rw [hnet.slot]
    exact hstands
  · rw [hnet.others _ hother]
    exact (h.stands j m c' hm hc).mono fun x hx =>
      (hjobs x hx).imp id fun hi heq => hother (heq.symm.trans hi)

/-- A call goes on and leaves a slot as it should be. -/
theorem reslot (h : r.Sound task ns host) (hr : Roster ns) (hphase : r.phase ≠ .run)
    (hn : ns[k]? = some n) (hnet : r.network.Reslotted (host n.location) s network)
    (hjobs : network.jobs = r.network.jobs)
    (hepoch : (r.network.slot (host n.location)).epoch ≤ s.epoch)
    (hstands : n.Stands task (host n.location) r.network.jobs r.attached s (c.readiness r.phase)) :
    Rollout.Sound task ns host { r with network, calls := r.calls.set k c } := by
  refine { h with calls := ?_, hosts := ?_, epochs := ?_, stands := ?_, open_ := ?_, running := ?_ }
  · exact (List.length_set ..).trans h.calls
  · exact fun m hm => hnet.alike.hosts (h.hosts m hm)
  · exact h.epochs_of_reslotted hnet hepoch fun x hx => .inl (hjobs ▸ hx)
  · exact h.stands_of_reslotted hr hn hnet (fun x hx => .inl (hjobs ▸ hx)) (hjobs ▸ hstands)
  · exact fun a ha => Nat.lt_of_lt_of_le (h.open_ a ha) hnet.connections
  · exact fun hrun => absurd hrun hphase

end Reslotted

theorem endJob (h : r.Sound task ns host) (k : Nat) (e : Execution) :
    (r.endJob k e).Sound task ns host := by
  rw [Rollout.endJob]
  split
  · rename_i i j hjob
    let others : Network := { r.network with jobs := r.network.jobs.eraseIdx k }
    have hmem : (i, j) ∈ r.network.jobs := List.mem_of_getElem? hjob
    have hfewer : ∀ x ∈ others.jobs, x ∈ r.network.jobs := fun x hx => List.mem_of_mem_eraseIdx hx
    have hothers : r.network.Alike others := ⟨rfl, rfl, rfl⟩
    have halike : r.network.Alike (others.finish i j e) := hothers.trans (others.alike_finish i j e)
    obtain ⟨outcome, hslot⟩ := others.slot_finish i j e
    refine { h with hosts := ?_, epochs := ?_, stands := ?_, open_ := ?_ }
    · exact fun n hn => halike.hosts (h.hosts n hn)
    · intro x hx
      have hold := h.epochs x (hfewer x hx)
      rcases hslot x.1 with heq | ⟨_, heq⟩
      · rw [heq]
        exact hold
      · rw [heq, Slot.epoch_complete]
        exact hold
    · intro l n c hn hc
      have hold := h.stands l n c hn hc
      refine OperatorNode.Stands.mono ?_ fun x hx => .inl (hfewer x hx)
      rcases hslot (host n.location) with heq | ⟨hi, heq⟩
      · rw [heq]
        exact hold
      · rw [heq]
        exact hold.complete ⟨(i, j), hmem, hi.symm, rfl⟩ outcome
    · intro a ha
      have hlength : (others.finish i j e).connections.length = r.network.connections.length := by
        rw [Network.finish, Network.length_connections_put, Network.length_connections_deliver]
      rw [hlength]
      exact h.open_ a ha
  · exact h

theorem turn (h : r.Sound task ns host) : r.turn.Sound task ns host := by
  rw [Rollout.turn]
  split
  · rename_i phase hnext
    split
    · rename_i hall
      have hrun : r.phase ≠ .run := Phase.ne_run_of_next hnext
      have hready : ∀ c ∈ r.calls, c.readiness r.phase = Progression.waiting.readiness phase :=
        fun c hc => Progression.readiness_next hnext (List.all_eq_true.mp hall c hc)
      have hwaiting : ∀ c ∈ r.calls.map fun _ => Progression.waiting, c = .waiting := by
        intro c hc
        obtain ⟨_, _, rfl⟩ := List.mem_map.mp hc
        rfl
      refine { h with calls := ?_, stands := ?_, early := ?_, wired := ?_, unstarted := ?_, running := ?_ }
      · exact (List.length_map ..).trans h.calls
      · intro k n c hn hc
        obtain ⟨old, hold, rfl⟩ := Option.map_eq_some_iff.mp ((List.getElem?_map ..).symm.trans hc)
        rw [← hready old (List.mem_of_getElem? hold)]
        exact h.stands k n old hn hold
      · exact fun hearly => h.early (.inl (Phase.first_of_next hnext hearly))
      · rintro rfl m hm u hu
        obtain ⟨k, hk⟩ := List.getElem?_of_mem hm
        obtain ⟨c, hc⟩ := h.exists_call hk
        have hstands := h.stands k m c hk hc
        rw [hready c (List.mem_of_getElem? hc)] at hstands
        exact hstands.2.2.2.isSome hu
      · exact fun _ => h.unstarted hrun
      · intro _ k n c hn hc
        rw [hwaiting c (List.mem_of_getElem? hc), h.unstarted hrun]
        simp [Progression.isFine]
    · exact h
  · exact h

section Calls

variable {a : Assignment} {w : Worker}

theorem request_ok (h : r.Sound task ns host) (hr : Roster ns) (hn : ns[k]? = some n)
    (hc : r.calls[k]? = some .waiting) (hw : w.location = n.location)
    (htask : a.instruction.task = task) (hnode : a.instruction.node = .ok n)
    (hrun : r.phase ≠ .run) : (r.request k a (host n.location) w).Sound task ns host := by
  have hhosts := h.hosts n (List.mem_of_getElem? hn)
  have hstands := h.stands k n _ hn hc
  cases hphase : r.phase with
  | sendInstruction =>
    rw [hphase] at hstands
    have hupdate : r.network.update (host n.location) (·.receive n.location.name a.instruction) = _ :=
      Network.update_ok (Slot.receive_ok hnode hstands)
    simp only [Rollout.request, hphase, hw, hupdate]
    refine h.reslot hr hrun hn (Network.reslotted_put hhosts.lt _) rfl ?_ ?_
    · exact Nat.le_succ _
    rw [hphase]
    refine ⟨⟨congrArg some htask, rfl, fun x hx hi => ?_⟩, rfl⟩
    exact Nat.lt_succ_of_le (hi ▸ h.epochs x hx)
  | setupWriters =>
    rw [hphase] at hstands
    obtain ⟨hholds, hstate⟩ := hstands
    have hwriters := Slot.setupWriters_ok hholds.node hstate
    have hnone : ∀ u m, streamOf r.attached u m = none := by
      rw [h.early (.inr hphase)]
      exact fun _ _ => rfl
    simp only [Rollout.request, hphase, Network.update_ok hwriters]
    refine h.reslot hr hrun hn (Network.reslotted_put hhosts.lt _) rfl (Nat.le_refl _) ?_
    rw [hphase]
    refine ⟨⟨hholds.task, hholds.node, hholds.alone⟩, rfl, ?_, ⟨⟨[], rfl, rfl⟩, fun u _ => hnone u _⟩⟩
    simp only [OperatorNode.egress, hnone]
  | setupReaders =>
    rw [hphase] at hstands
    obtain ⟨hholds, hstate, hegress, hopened⟩ := hstands
    have hbegin := Slot.beginReaders_ok hholds.task hholds.node hstate
    simp only [Rollout.request, hphase, hbegin]
    rw [← hphase]
    refine h.reslot hr hrun hn (.refl _ _) rfl (Nat.le_refl _) ?_
    rw [hphase]
    exact ⟨hholds, hstate, hegress, hopened, rfl, rfl⟩
  | run => exact absurd hphase hrun

/-- The writer of an input listens for its reader. -/
theorem listens (h : r.Sound task ns host) (hr : Roster ns) (hn : ns[k]? = some n)
    (hphase : r.phase = .setupReaders) {l : Location} (hl : l ∈ n.inputs) :
    ∃ u ∈ ns, u.location = l ∧ n.location ∈ u.outputs ∧
      (r.network.slot (host l)).task = some task ∧
      (r.network.slot (host l)).state ∈ [ExecutorState.writersReady, .readersReady] ∧
      (r.network.slot (host l)).egress = u.egress r.attached := by
  obtain ⟨u, hu, rfl, hout⟩ := hr.wired.sources n (List.mem_of_getElem? hn) l hl
  obtain ⟨j, hj⟩ := List.getElem?_of_mem hu
  obtain ⟨c, hc⟩ := h.exists_call hj
  have hstands := h.stands j u c hj hc
  rw [hphase] at hstands
  refine ⟨u, hu, rfl, hout, ?_⟩
  rcases c with _ | ⟨d, opened, rest⟩ | (_ | _)
  · exact ⟨hstands.1.task, by simp [hstands.2.1], hstands.2.2.1⟩
  · exact ⟨hstands.1.task, by simp [hstands.2.1], hstands.2.2.1⟩
  · exact hstands.elim
  · exact ⟨hstands.1.task, by simp [hstands.2.1], hstands.2.2.1⟩

theorem dial_eq (h : r.Sound task ns host) (hr : Roster ns) (hn : ns[k]? = some n)
    (hphase : r.phase = .setupReaders) {l : Location} (hl : l ∈ n.inputs)
    (hnone : streamOf r.attached l n.location = none) :
    ∃ u ∈ ns, u.location = l ∧ n.location ∈ u.outputs ∧ ∃ s : Slot,
      (r.network.slot (host l)).Same s ∧
      s.egress = u.egress (r.attached ++ [⟨l, n.location, r.network.connections.length⟩]) ∧
      r.network.dial task n.location l =
        (.ok r.network.connections.length, (r.network.put (host l) s).connect {}) := by
  obtain ⟨u, hu, rfl, hout, htask, hstate, hegress⟩ := h.listens hr hn hphase hl
  have hfill : Slot.fill n.location.name r.network.connections.length (u.egress r.attached) =
      some (u.egress (r.attached ++ [⟨u.location, n.location, r.network.connections.length⟩])) := by
    rw [OperatorNode.egress, Slot.fill_ok (hr.outputs u hu) hout hnone, OperatorNode.egress_append hnone]
    simp only [true_and]
  rw [← hegress] at hfill
  have hattach : r.network.update (host u.location)
      (·.attach task n.location r.network.connections.length) = _ :=
    Network.update_ok (Slot.attach_ok htask hstate hfill)
  refine ⟨u, hu, rfl, hout, { r.network.slot (host u.location) with
    egress := u.egress (r.attached ++ [⟨u.location, n.location, r.network.connections.length⟩])
    live := (r.network.slot (host u.location)).live ++ [r.network.connections.length] },
    ⟨rfl, rfl, rfl, rfl, rfl⟩, rfl, ?_⟩
  simp only [Network.dial, (h.hosts u hu).reach, hattach]

/-- All nodes stand as they should once a reader has been let in by a writer. -/
theorem stands_attach (h : r.Sound task ns host) (hr : Roster ns) (hn : ns[k]? = some n)
    (hphase : r.phase = .setupReaders) {d : Dialling} {opened rest u s} {id : StreamId}
    (hc : r.calls[k]? = some (.dialling d opened (u.location :: rest))) (hu : u ∈ ns)
    (hself : n.location ≠ u.location) (hsame : (r.network.slot (host u.location)).Same s)
    (hfilled : s.egress = u.egress (r.attached ++ [⟨u.location, n.location, id⟩]))
    {j : Nat} {m : OperatorNode} {c : Progression} (hm : ns[j]? = some m)
    (hc' : (r.calls.set k (.dialling d (opened ++ [id]) rest))[j]? = some c) :
    m.Stands task (host m.location) r.network.jobs
      (r.attached ++ [⟨u.location, n.location, id⟩])
      ((r.network.put (host u.location) s).slot (host m.location)) (c.readiness r.phase) := by
  have hmem := List.mem_of_getElem? hn
  have hmns := List.mem_of_getElem? hm
  have hput := Network.reslotted_put (h.hosts u hu).lt s
  have hslot : ∀ m ∈ ns, m.location ≠ u.location →
      (r.network.put (host u.location) s).slot (host m.location) =
        r.network.slot (host m.location) := by
    refine fun m hm hne => hput.others _ fun heq => hne ?_
    exact (h.hosts m hm).unique (heq ▸ h.hosts u hu)
  have hstands := h.stands k n _ hn hc
  rw [hphase] at hstands
  obtain ⟨hholds, hstate, hegress, hopened, hepoch, htask⟩ := hstands
  have hnone := hopened.rest u.location List.mem_cons_self
  rcases h.set_cases hr hn hm hc' with ⟨rfl, rfl, rfl⟩ | ⟨hhost, hc'⟩
  · -- the reader has one more input
    rw [hphase, hslot m hmem hself]
    exact ⟨hholds, hstate, hegress.trans (OperatorNode.egress_append_of_ne hnone hself id).symm,
      hopened.next (hr.wired.inputs m hmem) id, hepoch, htask⟩
  · have hother : m.location ≠ n.location := fun heq => hhost (congrArg host heq)
    have hold := h.stands j m c hm hc'
    by_cases hmu : m.location = u.location
    · obtain rfl : m = u := List.inj_on_of_nodup_map hr.places hmns hu hmu
      rw [hput.slot]
      exact hold.append hnone hother id hsame fun _ => hfilled
    · rw [hslot m hmns hmu]
      refine hold.append hnone hother id ⟨rfl, rfl, rfl, rfl, rfl⟩ fun heq => ?_
      rw [heq, OperatorNode.egress_append_of_ne hnone hmu]

theorem phase_of_dialling (h : r.Sound task ns host) (hn : ns[k]? = some n) {d : Dialling}
    {opened : List StreamId} {rest : List Location}
    (hc : r.calls[k]? = some (.dialling d opened rest)) : r.phase = .setupReaders := by
  have hstands := h.stands k n _ hn hc
  cases hphase : r.phase with
  | setupReaders => rfl
  | sendInstruction | setupWriters | run =>
    rw [hphase] at hstands
    exact hstands.elim

/-- A reader that is let in has a stream that no other has. -/
theorem attach_ok (h : r.Sound task ns host) (hr : Roster ns) (hn : ns[k]? = some n) {d : Dialling}
    {opened : List StreamId} {rest : List Location} {u : OperatorNode} {s : Slot}
    (hc : r.calls[k]? = some (.dialling d opened (u.location :: rest))) (hu : u ∈ ns)
    (hout : n.location ∈ u.outputs) (hself : n.location ≠ u.location)
    (hnone : streamOf r.attached u.location n.location = none)
    (hsame : (r.network.slot (host u.location)).Same s) {id : StreamId}
    (hid : r.network.connections.length = id)
    (hfilled : s.egress = u.egress (r.attached ++ [⟨u.location, n.location, id⟩])) :
    Rollout.Sound task ns host
      { r with
        network := (r.network.put (host u.location) s).connect {}
        calls := r.calls.set k (.dialling d (opened ++ [id]) rest)
        attached := r.attached ++ [⟨u.location, n.location, id⟩] } := by
  have hphase := h.phase_of_dialling hn hc
  have hrun : r.phase ≠ .run := by rw [hphase]; decide
  have hput := Network.reslotted_put (h.hosts u hu).lt s
  refine { h with
    calls := ?_, hosts := ?_, epochs := ?_, stands := ?_, early := ?_, edges := ?_, once := ?_,
    streams := ?_, open_ := ?_, wired := ?_, started := ?_, running := ?_ }
  · exact (List.length_set ..).trans h.calls
  · intro m hm
    have halike : r.network.Alike ((r.network.put (host u.location) s).connect {}) :=
      hput.alike.trans ⟨rfl, rfl, rfl⟩
    exact halike.hosts (h.hosts m hm)
  · intro x hx
    have hold := h.epochs x hx
    by_cases hi : x.1 = host u.location
    · rw [Network.slot_connect, hi, hput.slot, hsame.epoch, ← hi]
      exact hold
    · rw [Network.slot_connect, hput.others _ hi]
      exact hold
  · intro j m c hm hc'
    rw [Network.slot_connect]
    exact h.stands_attach hr hn hphase hc hu hself hsame hfilled hm hc'
  · intro hearly
    rw [hphase] at hearly
    rcases hearly with hearly | hearly <;> cases hearly
  · intro a ha
    rcases List.mem_append.mp ha with ha | ha
    · exact h.edges a ha
    · obtain rfl := List.mem_singleton.mp ha
      exact ⟨u, hu, rfl, hout⟩
  · rw [List.map_append, List.map_singleton]
    exact nodup_snoc h.once (streamOf_eq_none.mp hnone)
  · rw [List.map_append, List.map_singleton]
    refine nodup_snoc h.streams fun hmem => ?_
    obtain ⟨a, ha, heq⟩ := List.mem_map.mp hmem
    have hlt := h.open_ a ha
    rw [heq, hid] at hlt
    exact Nat.lt_irrefl _ hlt
  · intro a ha
    rw [Network.length_connections_connect, Network.length_connections_put]
    rcases List.mem_append.mp ha with ha | ha
    · exact Nat.lt_succ_of_lt (h.open_ a ha)
    · obtain rfl := List.mem_singleton.mp ha
      exact hid ▸ Nat.lt_succ_self _
  · exact fun hrun' => absurd hrun' hrun
  · intro x hx
    rw [h.unstarted hrun] at hx
    cases hx
  · exact fun hrun' => absurd hrun' hrun

theorem dial_ok (h : r.Sound task ns host) (hr : Roster ns) (hn : ns[k]? = some n)
    {d : Dialling} {opened : List StreamId} {rest : List Location}
    (hc : r.calls[k]? = some (.dialling d opened rest)) (hw : w.location = n.location) :
    (r.dial k (host n.location) w d opened rest).Sound task ns host := by
  have hmem := List.mem_of_getElem? hn
  have hstands := h.stands k n _ hn hc
  have hphase := h.phase_of_dialling hn hc
  rw [hphase] at hstands
  obtain ⟨hholds, hstate, hegress, hopened, hepoch, htask⟩ := hstands
  cases rest with
  | nil =>
    simp only [Rollout.dial, hepoch, Slot.commitReaders_ok]
    refine h.reslot hr (by rw [hphase]; decide) hn (Network.reslotted_put (h.hosts n hmem).lt _) rfl
      (Nat.le_refl _) ?_
    rw [hphase]
    exact ⟨⟨hholds.task, hholds.node, hholds.alone⟩, rfl, hegress, hopened⟩
  | cons l rest =>
    have hl := hopened.mem_inputs
    have hnone := hopened.rest l List.mem_cons_self
    obtain ⟨u, hu, rfl, hout, s, hsame, hfilled, hdial⟩ := h.dial_eq hr hn hphase hl hnone
    have hself : n.location ≠ u.location := fun heq => hr.wired.self n hmem (heq ▸ hl)
    simp only [Rollout.dial, hw, htask, hdial]
    exact h.attach_ok hr hn hc hu hout hself hnone hsame rfl hfilled

/-- A node that is asked to run has all its streams, and starts. -/
theorem start_ok (h : r.Sound task ns host) (hr : Roster ns) (hn : ns[k]? = some n)
    (hc : r.calls[k]? = some .waiting) (hw : w.location = n.location) (hphase : r.phase = .run) :
    (r.request k a (host n.location) w).Sound task ns host := by
  have hmem := List.mem_of_getElem? hn
  have hhosts := h.hosts n hmem
  have hstands := h.stands k n _ hn hc
  rw [hphase] at hstands
  obtain ⟨hholds, hstate, hegress, hopened⟩ := hstands
  have hstreams : ∀ l ∈ n.outputs, (streamOf r.attached n.location l).isSome := by
    intro l hl
    obtain ⟨m, hm, rfl, hin⟩ := hr.wired.readers n hmem l hl
    exact h.wired hphase m hm n.location hin
  have hstart := Slot.start_ok hholds.node hstate fun e he => by
    rw [hegress] at he
    obtain ⟨l, hl, rfl⟩ := List.mem_map.mp he
    exact hstreams l hl
  obtain ⟨network, hnetwork, hnet, hjobs⟩ := Network.start_eq hhosts.lt hstart w
  have hnotStarted : n.location ∉ r.started.map (·.1) := fun hmem => by
    have := (h.running hphase k n _ hn hc).mp hmem
    cases this
  simp only [Rollout.request, hphase, Rollout.answer, hnetwork, hstart, hw]
  rw [← hphase]
  refine { h with
    calls := ?_, hosts := ?_, epochs := ?_, stands := ?_, open_ := ?_, unstarted := ?_, started := ?_,
    startedOnce := ?_, running := ?_ }
  · exact (List.length_set ..).trans h.calls
  · exact fun m hm => hnet.alike.hosts (h.hosts m hm)
  · refine h.epochs_of_reslotted hnet (Nat.le_refl _) fun x hx => ?_
    rw [hjobs] at hx
    refine (List.mem_append.mp hx).imp id fun hx => ?_
    rw [List.mem_singleton.mp hx]
    exact ⟨rfl, Nat.le_refl _⟩
  · refine h.stands_of_reslotted hr hn hnet (fun x hx => ?_) (by rw [hphase]; trivial)
    rw [hjobs] at hx
    exact (List.mem_append.mp hx).imp id fun hx => by rw [List.mem_singleton.mp hx]
  · exact fun b hb => Nat.lt_of_lt_of_le (h.open_ b hb) hnet.connections
  · exact fun hrun => absurd hphase hrun
  · intro x hx
    rcases List.mem_append.mp hx with hx | hx
    · exact h.started x hx
    · rw [List.mem_singleton.mp hx]
      exact ⟨n, hmem, rfl, rfl, hopened.all, hegress ▸ OperatorNode.egress_streams hstreams⟩
  · rw [List.map_append, List.map_singleton]
    exact nodup_snoc h.startedOnce hnotStarted
  · intro _ j m c hm hc'
    rw [List.map_append, List.mem_append, List.map_singleton, List.mem_singleton]
    rcases h.set_cases hr hn hm hc' with ⟨rfl, rfl, rfl⟩ | ⟨hother, hc'⟩
    · exact ⟨fun _ => rfl, fun _ => .inr rfl⟩
    · rw [← h.running hphase j m c hm hc']
      exact ⟨fun hmem => hmem.resolve_right fun heq => hother (congrArg host heq), .inl⟩

/-- The next step of a call. -/
theorem call_eq (h : r.Sound task ns host) {nodes : List Assignment} (ha : nodes[k]? = some a)
    (hn : ns[k]? = some n) (hm : a.MeantFor task n) {c : Progression} (hc : r.calls[k]? = some c) :
    ∃ w, r.network.workers[host n.location]? = some w ∧ w.location = n.location ∧
      r.call nodes k = match c with
        | .waiting => r.request k a (host n.location) w
        | .dialling d opened rest => r.dial k (host n.location) w d opened rest
        | .answered _ => r := by
  have hhosts := h.hosts n (List.mem_of_getElem? hn)
  obtain ⟨w, hw, hworker⟩ := hhosts.worker
  refine ⟨w, hw, hworker, ?_⟩
  simp only [Rollout.call, ha, hc, hm.location, hhosts.reach, hw]
  cases c <;> rfl

theorem call_ok (h : r.Sound task ns host) (hr : Roster ns) {nodes : List Assignment}
    (hm : Meant task ns nodes) (k : Nat) : (r.call nodes k).Sound task ns host := by
  rcases hn : ns[k]? with _ | n
  · rw [Rollout.call, h.call_eq_none hn]
    cases nodes[k]? <;> exact h
  obtain ⟨a, ha, hmeant⟩ := hm.at hn
  obtain ⟨c, hc⟩ := h.exists_call hn
  obtain ⟨w, _, hworker, hcall⟩ := h.call_eq ha hn hmeant hc
  rw [hcall]
  cases c with
  | waiting =>
    by_cases hrun : r.phase = .run
    · exact h.start_ok hr hn hc hworker hrun
    · exact h.request_ok hr hn hc hworker hmeant.task hmeant.node hrun
  | dialling d opened rest => exact h.dial_ok hr hn hc hworker
  | answered x => exact h

end Calls

/-- No step of any call fails, and none undoes what others have done. -/
theorem act (h : r.Sound task ns host) (hr : Roster ns) {nodes : List Assignment}
    (hm : Meant task ns nodes)
    (event : Event) : (r.act nodes event).Sound task ns host := by
  cases event with
  | call k => exact h.call_ok hr hm k
  | job k e => exact h.endJob k e
  | turn => exact h.turn

theorem run (h : r.Sound task ns host) (hr : Roster ns) {nodes : List Assignment}
    (hm : Meant task ns nodes)
    (events : List Event) : (r.run nodes events).Sound task ns host := by
  induction events generalizing r with
  | nil => exact h
  | cons event events ih => exact ih (h.act hr hm event)

end Rollout.Sound
end QueryCluster
