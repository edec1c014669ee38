import QueryCluster.Proofs.Scheduler.Lists
import QueryCluster.Proofs.Scheduler.Wiring
import QueryCluster.Scheduler.Remote

/-!
# Dispatch brings a graph onto its executors

A dispatch in sequence or in parallel is one order of the steps of its calls. In whatever order they
are taken no call fails, there is always a step left until every call has been answered, and then each
node has been started once, with one stream for each edge of the graph, at its place at both ends.
-/
namespace QueryCluster

namespace Rollout

variable {task : TaskId} {ns : List OperatorNode} {host : Location → Nat} {r : Rollout}
  {nodes : List Assignment} {k : Nat} {n : OperatorNode} {w : World Network}

theorem run_append (r : Rollout) (nodes : List Assignment) (events others : List Event) :
    r.run nodes (events ++ others) = (r.run nodes events).run nodes others :=
  List.foldl_append ..

/-! ## The steps of a call -/

/-- Settling a network ends some jobs. -/
theorem settle_run (r : Rollout) (nodes : List Assignment) :
    ∃ events, r.run nodes events = { r with network := r.network.settle } := by
  rw [Network.settle]
  generalize r.network.jobs.length = fuel
  induction fuel generalizing r with
  | zero => exact ⟨[], rfl⟩
  | succ fuel ih =>
    rw [Network.settleWithin]
    split
    · exact ⟨[], rfl⟩
    · rename_i i j e others hnext
      obtain ⟨k, hk, rfl⟩ := Network.nextJob_ok hnext
      obtain ⟨events, hevents⟩ := ih (r.endJob k e)
      refine ⟨.job k e :: events, ?_⟩
      rw [run, List.foldl_cons]
      refine hevents.trans ?_
      rw [endJob, hk]

/-- The streams that a call opens on its way. -/
theorem dialAll_run (h : r.Sound task ns host) (hr : Roster ns) (hm : Meant task ns nodes)
    (hn : ns[k]? = some n) {d : Dialling} {opened : List StreamId} {rest : List Location}
    (hc : r.calls[k]? = some (.dialling d opened rest)) (hphase : r.phase = .setupReaders) :
    ∃ streams events, Network.dialAll d.task n.location opened rest r.network =
        (.ok streams, (r.run nodes events).network) ∧
      (r.run nodes events).phase = .setupReaders ∧
      (r.run nodes events).calls = r.calls.set k (.dialling d streams []) := by
  induction rest generalizing r opened with
  | nil =>
    refine ⟨opened, [], rfl, hphase, ?_⟩
    obtain ⟨hk, hself⟩ := List.getElem?_eq_some_iff.mp hc
    rw [← hself, List.set_getElem_self]
    rfl
  | cons l rest ih =>
    have hstands := h.stands k n _ hn hc
    rw [hphase] at hstands
    obtain ⟨_, _, _, hopened, _, htask⟩ := hstands
    have hl := hopened.mem_inputs
    obtain ⟨a, ha, hmeant⟩ := hm.at hn
    obtain ⟨v, _, hworker, hcall⟩ := h.call_eq ha hn hmeant hc
    obtain ⟨_, _, rfl, _, s, _, _, hdial⟩ :=
      h.dial_eq hr hn hphase hl (hopened.rest _ List.mem_cons_self)
    have hsound := h.call_ok hr hm k
    simp only [dial, hworker, htask, hdial] at hcall
    have hnext : (r.call nodes k).calls[k]? =
        some (.dialling d (opened ++ [r.network.connections.length]) rest) := by
      rw [hcall, List.getElem?_set_self (List.getElem?_eq_some_iff.mp hc).1]
    obtain ⟨streams, events, hall, hphase', hcalls⟩ := ih hsound hnext (by rw [hcall]; exact hphase)
    refine ⟨streams, .call k :: events, ?_, hphase', ?_⟩
    · rw [Network.dialAll, htask, hdial]
      rw [hcall, htask] at hall
      refine hall.trans ?_
      rw [← hcall]
      rfl
    · refine hcalls.trans ?_
      rw [hcall, List.set_set]

/-- No call has been answered with an error. -/
theorem Sound.answer_ok (h : r.Sound task ns host) {x : Except ExecutorError Unit}
    (hn : ns[k]? = some n) (hc : r.calls[k]? = some (.answered x)) : x = .ok () := by
  cases x with
  | ok => rfl
  | error e =>
    have hstands := h.stands k n _ hn hc
    cases hphase : r.phase
    all_goals
      rw [hphase] at hstands
      exact hstands.elim

/-- What a call does to the network before jobs end. -/
def outcome (n : Network) (i : Nat) (w : Worker) (instruction : Instruction) :
    Phase → Except ExecutorError Unit × Network
  | .sendInstruction => n.update i (·.receive w.location.name instruction)
  | .setupWriters => n.update i Slot.setupWriters
  | .setupReaders => n.setupReaders i w.location
  | .run => n.start i w

/-- A call that is over after one step leaves the network that it leaves in one go. -/
theorem run_of_call (h : (r.call nodes k).Sound task ns host) (hn : ns[k]? = some n)
    (hlt : k < r.calls.length) {x : Except ExecutorError Unit × Network}
    (hnetwork : (r.call nodes k).network = x.2) (hphase : (r.call nodes k).phase = r.phase)
    (hcalls : (r.call nodes k).calls = r.calls.set k (.answered x.1)) :
    ∃ events, x = (.ok (), (r.run nodes events).network) ∧ (r.run nodes events).phase = r.phase ∧
      (r.run nodes events).calls = r.calls.set k (.answered (.ok ())) := by
  obtain ⟨x, network⟩ := x
  obtain rfl : x = .ok () := h.answer_ok hn (by rw [hcalls, List.getElem?_set_self hlt])
  exact ⟨[.call k], Prod.ext rfl hnetwork.symm, hphase, hcalls⟩

/-- The readers of a node are set up in one go as they are in steps: begun, let in by one writer
after the other, and set. -/
theorem setupReaders_run (h : r.Sound task ns host) (hr : Roster ns) (hm : Meant task ns nodes)
    (hn : ns[k]? = some n) {a : Assignment} (ha : nodes[k]? = some a)
    (hc : r.calls[k]? = some .waiting) (hphase : r.phase = .setupReaders) :
    ∃ events, r.network.setupReaders (host n.location) n.location =
        (.ok (), (r.run nodes events).network) ∧
      (r.run nodes events).phase = .setupReaders ∧
      (r.run nodes events).calls = r.calls.set k (.answered (.ok ())) := by
  have hlt := (List.getElem?_eq_some_iff.mp hc).1
  obtain ⟨a', ha', hmeant⟩ := hm.at hn
  obtain rfl : a = a' := Option.some.inj (ha.symm.trans ha')
  obtain ⟨v, _, hworker, hcall⟩ := h.call_eq ha hn hmeant hc
  have hsound := h.call_ok hr hm k
  have hstands := h.stands k n _ hn hc
  rw [hphase] at hstands
  obtain ⟨hholds, hstate, _⟩ := hstands
  obtain ⟨d, hbegin⟩ : ∃ d, (r.network.slot (host n.location)).beginReaders = .ok d :=
    ⟨_, Slot.beginReaders_ok hholds.task hholds.node hstate⟩
  simp only [request, hphase, hbegin] at hcall
  have hdialling : (r.call nodes k).calls[k]? = some (.dialling d [] d.inputs) := by
    rw [hcall, List.getElem?_set_self hlt]
  have hstill : (r.call nodes k).phase = .setupReaders := by rw [hcall]
  obtain ⟨streams, events, hall, hphase', hcalls⟩ := dialAll_run hsound hr hm hn hdialling hstill
  have hsound' := hsound.run hr hm events
  generalize hr' : (r.call nodes k).run nodes events = r' at hall hphase' hcalls hsound'
  have hopened : r'.calls[k]? = some (.dialling d streams []) := by
    rw [hcalls, hcall, List.set_set, List.getElem?_set_self hlt]
  obtain ⟨v', _, _, hcall'⟩ := hsound'.call_eq ha hn hmeant hopened
  have hstands' := hsound'.stands k n _ hn hopened
  rw [hphase'] at hstands'
  obtain ⟨_, _, _, _, hepoch, _⟩ := hstands'
  simp only [dial, hepoch, Slot.commitReaders_ok] at hcall'
  refine ⟨.call k :: events ++ [.call k], ?_⟩
  have hrun : r.run nodes (.call k :: events ++ [.call k]) = r'.call nodes k := by
    rw [run_append, run, List.foldl_cons]
    exact congrArg (call nodes · k) hr'
  rw [hrun, hcall']
  refine ⟨?_, hphase', ?_⟩
  · rw [hcall] at hall
    simp only [Network.setupReaders, hbegin, hall, hepoch, Slot.commitReaders_ok]
    rfl
  · rw [answer, hcalls, hcall, List.set_set, List.set_set]

/-- A call in one go is a run of its steps. -/
theorem outcome_run (h : r.Sound task ns host) (hr : Roster ns) (hm : Meant task ns nodes)
    (hn : ns[k]? = some n) {a : Assignment} (ha : nodes[k]? = some a)
    (hc : r.calls[k]? = some .waiting) {v : Worker} (hv : r.network.workers[host n.location]? = some v) :
    ∃ events, outcome r.network (host n.location) v a.instruction r.phase =
        (.ok (), (r.run nodes events).network) ∧
      (r.run nodes events).phase = r.phase ∧
      (r.run nodes events).calls = r.calls.set k (.answered (.ok ())) := by
  obtain ⟨a', ha', hmeant⟩ := hm.at hn
  obtain rfl : a = a' := Option.some.inj (ha.symm.trans ha')
  obtain ⟨v', hv', hworker, hcall⟩ := h.call_eq ha hn hmeant hc
  obtain rfl : v = v' := Option.some.inj (hv.symm.trans hv')
  cases hphase : r.phase with
  | sendInstruction | setupWriters | run =>
    rw [← hphase]
    simp only [request, hphase] at hcall
    refine run_of_call (h.call_ok hr hm k) hn (List.getElem?_eq_some_iff.mp hc).1 ?_ ?_ ?_
    · rw [hcall, hphase]
      rfl
    · rw [hcall]
      rfl
    · rw [hcall, hphase]
      rfl
  | setupReaders =>
    rw [outcome, hworker]
    exact setupReaders_run h hr hm hn ha hc hphase

theorem perform_run (h : r.Sound task ns host) (hr : Roster ns) (hm : Meant task ns nodes)
    (hn : ns[k]? = some n) {a : Assignment} (ha : nodes[k]? = some a)
    (hc : r.calls[k]? = some .waiting) (hw : w.outside = r.network) :
    ∃ events, Network.client.perform r.phase a.location a.instruction w =
        (.ok (), { w with outside := (r.run nodes events).network }) ∧
      (r.run nodes events).phase = r.phase ∧
      (r.run nodes events).calls = r.calls.set k (.answered (.ok ())) := by
  have hhosts := h.hosts n (List.mem_of_getElem? hn)
  obtain ⟨v, hv, _⟩ := hhosts.worker
  obtain ⟨a', ha', hmeant⟩ := hm.at hn
  obtain rfl : a = a' := Option.some.inj (ha.symm.trans ha')
  obtain ⟨events, houtcome, hphase, hcalls⟩ := outcome_run h hr hm hn ha hc hv
  obtain ⟨jobs, hjobs⟩ := settle_run (r.run nodes events) nodes
  refine ⟨events ++ jobs, ?_⟩
  rw [run_append, hjobs]
  refine ⟨?_, hphase, hcalls⟩
  have hcontrol : r.network.control (host n.location) v (Network.phaseRequest a.instruction r.phase) =
      (.ok .ack, (r.run nodes events).network.settle) := by
    cases hp : r.phase
    all_goals
      rw [hp] at houtcome
      simp only [outcome] at houtcome
      simp only [Network.phaseRequest, Network.control, Network.control.acknowledge, houtcome]
      rfl
  simp only [Network.client, Network.ask, hw, hmeant.location, Network.call, hhosts.reach, hv,
    Network.handle, hcontrol]
  rfl

/-! ## The calls of a phase -/

/-- Calls in any order, each of which waits, are answered well. -/
theorem callEach_run (h : r.Sound task ns host) (hr : Roster ns) (hm : Meant task ns nodes)
    (hw : w.outside = r.network) {order : List Nat} (horder : order.Nodup)
    (hwaiting : ∀ k ∈ order, k < ns.length → r.calls[k]? = some .waiting) :
    ∃ events, Network.client.callEach r.phase nodes order w =
        ([], { w with outside := (r.run nodes events).network }) ∧
      (r.run nodes events).phase = r.phase ∧
      ∀ k < ns.length, (r.run nodes events).calls[k]? =
        if k ∈ order then some (.answered (.ok ())) else r.calls[k]? := by
  induction order generalizing r w with
  | nil =>
    refine ⟨[], ?_, rfl, fun k _ => (if_neg List.not_mem_nil).symm⟩
    rw [Client.callEach, run, List.foldl_nil, ← hw]
  | cons k order ih =>
    obtain ⟨hk, horder⟩ := List.nodup_cons.mp horder
    rw [Client.callEach]
    rcases hn : ns[k]? with _ | n
    · have hnone : nodes[k]? = none := by
        rw [List.getElem?_eq_none_iff] at hn ⊢
        rwa [← hm.length_eq]
      have hge : ns.length ≤ k := List.getElem?_eq_none_iff.mp hn
      rw [hnone]
      obtain ⟨events, hcall, hphase, hcalls⟩ := ih h hw horder
        fun j hj => hwaiting j (List.mem_cons_of_mem _ hj)
      refine ⟨events, hcall, hphase, fun j hj => ?_⟩
      have hne : j ≠ k := by omega
      simp only [hcalls j hj, List.mem_cons, hne, false_or]
    · obtain ⟨a, ha, _⟩ := hm.at hn
      have hlt := (List.getElem?_eq_some_iff.mp hn).1
      have hc := hwaiting k List.mem_cons_self hlt
      obtain ⟨events, hperform, hphase, hcalls⟩ := perform_run h hr hm hn ha hc hw
      have hothers : ∀ j ∈ order, j < ns.length → (r.run nodes events).calls[j]? = some .waiting := by
        intro j hj hjlt
        have hne : k ≠ j := fun heq => hk (heq ▸ hj)
        rw [hcalls, List.getElem?_set_ne hne]
        exact hwaiting j (List.mem_cons_of_mem _ hj) hjlt
      let later : World Network := { w with outside := (r.run nodes events).network }
      obtain ⟨others, hrest, hphase', hcalls'⟩ := @ih _ later (h.run hr hm events) rfl horder hothers
      rw [ha]
      simp only [hperform]
      rw [hphase] at hrest hphase'
      refine ⟨events ++ others, ?_, ?_, fun j hj => ?_⟩
      · rw [run_append]
        exact hrest
      · rw [run_append]
        exact hphase'
      · rw [run_append, hcalls' j hj, hcalls]
        by_cases hjk : k = j
        · subst hjk
          rw [if_neg hk, if_pos List.mem_cons_self, List.getElem?_set_self (h.calls ▸ hj)]
        · rw [List.getElem?_set_ne hjk]
          simp only [List.mem_cons, Ne.symm hjk, false_or]

/-- Calls in sequence, if none fails, are the calls in the order of the nodes. -/
theorem inSequence_of_callEach {c : Client (World Network)} {phase : Phase} {w w' : World Network}
    {front back : List Assignment}
    (h : c.callEach phase (front ++ back) (List.range' front.length back.length) w = ([], w')) :
    c.inSequence phase back w = (⟨back.map (·.location), none⟩, w') := by
  induction back generalizing front w with
  | nil =>
    cases h
    rfl
  | cons a back ih =>
    have ha : (front ++ a :: back)[front.length]? = some a := by simp
    rw [List.length_cons, List.range'_succ, Client.callEach, ha] at h
    rw [Client.inSequence]
    rcases hp : c.perform phase a.location a.instruction w with ⟨_ | _, v⟩
    · simp only [hp] at h
      cases (Prod.mk.inj h).1
    · simp only [hp] at h
      have hnext : c.callEach phase ((front ++ [a]) ++ back)
          (List.range' (front ++ [a]).length back.length) v = ([], w') := by
        rw [List.append_assoc, List.length_append]
        exact h
      simp only [ih hnext]
      rfl

/-- All calls of a phase, in sequence or in parallel, are answered well. -/
theorem callPhase_run (h : r.Sound task ns host) (hr : Roster ns) (hm : Meant task ns nodes)
    (hw : w.outside = r.network) (hwaiting : ∀ k < ns.length, r.calls[k]? = some .waiting)
    (mode : DispatchMode) (order : List Nat) :
    ∃ events, Network.client.callPhase mode order r.phase nodes w =
        (⟨nodes.map (·.location), none⟩, { w with outside := (r.run nodes events).network }) ∧
      (r.run nodes events).phase = r.phase ∧
      ∀ k < ns.length, (r.run nodes events).calls[k]? = some (.answered (.ok ())) := by
  have hlength : nodes.length = ns.length := hm.length_eq.symm
  cases mode with
  | sequential =>
    obtain ⟨events, hcall, hphase, hcalls⟩ := callEach_run h hr hm hw
      (List.nodup_range' (s := 0) (n := nodes.length)) fun k _ hk => hwaiting k hk
    refine ⟨events, @inSequence_of_callEach _ _ _ _ [] _ hcall, hphase, fun k hk => ?_⟩
    rw [hcalls k hk, if_pos]
    rw [List.mem_range'_1]
    omega
  | parallel =>
    obtain ⟨hnodup, hmem⟩ := Client.callOrder_spec order nodes.length
    obtain ⟨events, hcall, hphase, hcalls⟩ :=
      callEach_run h hr hm hw hnodup fun k _ hk => hwaiting k hk
    refine ⟨events, ?_, hphase, fun k hk => ?_⟩
    · simp only [Client.callPhase, Client.inParallel, hcall]
      rw [List.findSome?_eq_none_iff.mpr]
      exact fun _ _ => rfl
    · rw [hcalls k hk, if_pos ((hmem k).mpr (hlength ▸ hk))]

end Rollout
end QueryCluster
