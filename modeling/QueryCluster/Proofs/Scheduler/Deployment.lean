import QueryCluster.Proofs.Scheduler.Completion

/-!
# A bound graph is deployed

The graph of a plan is brought onto executors that have nothing to do. No call fails, in sequence or
in parallel, and whatever the order of steps, the dispatch ends with all nodes running and wired.
-/
namespace QueryCluster

open Plan (placesOf)

/-- The phases that follow one another up to the last. -/
def Phase.Leads : Phase → List Phase → Prop
  | p, [] => p = .run
  | p, q :: phases => p.next? = some q ∧ q.Leads phases

namespace Rollout

variable {task : TaskId} {ns : List OperatorNode} {host : Location → Nat} {r : Rollout}
  {nodes : List Assignment} {w : World Network}

/-- A call is answered well. -/
def Fine (r : Rollout) (k : Nat) : Prop := r.calls[k]? = some (.answered (.ok ()))

namespace Sound

theorem all_isFine_of_fine (h : r.Sound task ns host) (hfine : ∀ k < ns.length, r.Fine k) :
    r.calls.all Progression.isFine :=
  h.all_isFine fun k c hc => ⟨.ok (), by
    have hk := hfine k (h.calls ▸ (List.getElem?_eq_some_iff.mp hc).1)
    exact Option.some.inj (hc.symm.trans hk)⟩

/-- When all calls of a phase are answered well, those of the next are due. -/
theorem turn_of_fine (h : r.Sound task ns host) (hfine : ∀ k < ns.length, r.Fine k) {phase : Phase}
    (hnext : r.phase.next? = some phase) :
    r.turn = { r with phase, calls := r.calls.map fun _ => .waiting } := by
  simp only [Rollout.turn, hnext, h.all_isFine_of_fine hfine, if_true]

theorem dispatchPhases_run (h : r.Sound task ns host) (hr : Roster ns) (hm : Meant task ns nodes)
    (hw : w.outside = r.network) (hwaiting : ∀ k < ns.length, r.calls[k]? = some .waiting)
    (mode : DispatchMode) (order : Phase → List Nat) {phases : List Phase}
    (hleads : r.phase.Leads phases) (contacted : List Location) :
    ∃ events, Network.client.dispatchPhases mode order nodes contacted (r.phase :: phases) w =
        (.ok (), { w with outside := (r.run nodes events).network }) ∧
      (r.run nodes events).isComplete := by
  induction phases generalizing r w contacted with
  | nil =>
    obtain ⟨events, hcall, hphase, hfine⟩ := callPhase_run h hr hm hw hwaiting mode (order r.phase)
    refine ⟨events, ?_, ?_⟩
    · simp only [Client.dispatchPhases, hcall]
    · have hall := (h.run hr hm events).all_isFine_of_fine hfine
      have hrun : (r.run nodes events).phase = .run := hphase.trans hleads
      rw [isComplete, hrun, decide_eq_true rfl, hall]
      rfl
  | cons phase phases ih =>
    obtain ⟨hnext, hleads⟩ := hleads
    obtain ⟨events, hcall, hphase, hfine⟩ := callPhase_run h hr hm hw hwaiting mode (order r.phase)
    have hafter := h.run hr hm events
    have hturn := hafter.turn_of_fine hfine (hphase ▸ hnext)
    have hnow := hafter.turn
    rw [hturn] at hnow
    let later : World Network := { w with outside := (r.run nodes events).network }
    obtain ⟨others, hrest, hcomplete⟩ := @ih _ later hnow rfl
      (fun k hk => by rw [List.getElem?_map, hfine k hk]; rfl) hleads
      (if r.phase = .sendInstruction then contacted ++ nodes.map (·.location) else contacted)
    have hrun : r.run nodes (events ++ .turn :: others) = Rollout.run nodes
        { r.run nodes events with
          phase, calls := (r.run nodes events).calls.map fun _ => .waiting } others := by
      rw [run_append, ← hturn]
      rfl
    refine ⟨events ++ .turn :: others, ?_, ?_⟩
    · rw [Client.dispatchPhases, hrun]
      simp only [hcall]
      exact hrest
    · rw [hrun]
      exact hcomplete

end Sound

/-- Executors that hold no node yet, with no job of a later instruction. -/
theorem sound_begin {network : Network} (hlength : nodes.length = ns.length)
    (hhosts : ∀ n ∈ ns, network.Hosts n.location (host n.location))
    (hstates : ∀ n ∈ ns,
      (network.slot (host n.location)).state ∈ [ExecutorState.idle, .done, .failed])
    (hepochs : ∀ x ∈ network.jobs, x.2.epoch ≤ (network.slot x.1).epoch) :
    (begin nodes network).Sound task ns host where
  calls := (List.length_map ..).trans hlength
  hosts := hhosts
  epochs := hepochs
  stands k n c hn hc := by
    obtain ⟨a, _, rfl⟩ := Option.map_eq_some_iff.mp ((List.getElem?_map ..).symm.trans hc)
    exact hstates n (List.mem_of_getElem? hn)
  early _ := rfl
  edges _ h := by cases h
  once := List.nodup_nil
  streams := List.nodup_nil
  open_ _ h := by cases h
  wired h := by cases h
  unstarted _ := rfl
  started _ h := by cases h
  startedOnce := List.nodup_nil
  running h := by cases h

end Rollout

/-- All edges of a graph, from writer to reader. -/
def Plan.edgesOf (ns : List OperatorNode) : List (Location × Location) :=
  ns.flatMap fun n => n.outputs.map fun l => (n.location, l)

/-- A stream stands at its place among the outputs of its writer and the inputs of its reader. -/
structure Rollout.Connects (r : Rollout) (a : Attachment) : Prop where
  writer : ∃ (job : Job) (j : Nat), (a.writer, job) ∈ r.started ∧
    job.node.outputs[j]? = some a.reader ∧ job.egress[j]? = some a.stream
  reader : ∃ (job : Job) (i : Nat), (a.reader, job) ∈ r.started ∧
    job.node.inputs[i]? = some a.writer ∧ job.ingress[i]? = some a.stream

/-- Every node of a graph has been started once, and every edge is one stream at its places. -/
structure Rollout.Deployed (r : Rollout) (ns : List OperatorNode) : Prop where
  started : (r.started.map fun x => (x.1, x.2.node)).Perm (ns.map fun n => (n.location, n))
  attached : (r.attached.map fun a => (a.writer, a.reader)).Perm (Plan.edgesOf ns)
  streams : (r.attached.map (·.stream)).Nodup
  connects : ∀ a ∈ r.attached, r.Connects a
  egress : ∀ x ∈ r.started, x.2.egress.length = x.2.node.outputs.length
  ingress : ∀ x ∈ r.started, x.2.ingress.length = x.2.node.inputs.length

namespace Rollout.Sound

variable {task : TaskId} {ns : List OperatorNode} {host : Location → Nat} {r : Rollout}

theorem streamOf_of_mem {log : List Attachment}
    (honce : (log.map fun a => (a.writer, a.reader)).Nodup) {a : Attachment} (ha : a ∈ log) :
    streamOf log a.writer a.reader = some a.stream := by
  rcases hs : streamOf log a.writer a.reader with _ | stream
  · exact absurd (List.mem_map.mpr ⟨a, ha, rfl⟩) (streamOf_eq_none.mp hs)
  · obtain ⟨b, hb, rfl⟩ := Option.map_eq_some_iff.mp hs
    have hkeys := List.find?_some hb
    simp only [decide_eq_true_eq] at hkeys
    obtain ⟨hwriter, hreader⟩ := hkeys
    have hab : a = b := List.inj_on_of_nodup_map honce ha (List.mem_of_find?_eq_some hb)
      (Prod.ext hwriter.symm hreader.symm)
    rw [hab]

theorem edgesOf_nodup (hr : Roster ns) : (Plan.edgesOf ns).Nodup := by
  refine List.nodup_flatMap.mpr ⟨fun n hn => ?_, ?_⟩
  · refine (hr.wired.outputs n hn).map fun l m h => ?_
    exact (Prod.mk.inj h).2
  · refine (List.pairwise_map.mp hr.places).imp fun {n m} hne => ?_
    intro e hn hm
    obtain ⟨l, _, rfl⟩ := List.mem_map.mp hn
    obtain ⟨l', _, heq⟩ := List.mem_map.mp hm
    exact hne (Prod.mk.inj heq).1.symm

theorem getElem?_of_map_some {α β : Type} {xs : List α} {ys : List β} {f : β → Option α}
    (h : xs.map some = ys.map f) {i : Nat} {y : β} {x : α} (hy : ys[i]? = some y)
    (hf : f y = some x) : xs[i]? = some x := by
  have hi : (xs.map some)[i]? = some (some x) := by rw [h, List.getElem?_map, hy, ← hf]; rfl
  rw [List.getElem?_map] at hi
  obtain ⟨z, hz, hzx⟩ := Option.map_eq_some_iff.mp hi
  rw [hz, hzx]

variable {n : OperatorNode}

theorem exists_started (h : r.Sound task ns host) (hcomplete : r.isComplete) (hn : n ∈ ns) :
    ∃ job, (n.location, job) ∈ r.started := by
  rw [isComplete, Bool.and_eq_true, decide_eq_true_eq] at hcomplete
  obtain ⟨hrun, hall⟩ := hcomplete
  obtain ⟨k, hk⟩ := List.getElem?_of_mem hn
  obtain ⟨c, hc⟩ := h.exists_call hk
  have hmem := (h.running hrun k n c hk hc).mpr
    (List.all_eq_true.mp hall c (List.mem_of_getElem? hc))
  obtain ⟨⟨l, job⟩, hx, rfl⟩ := List.mem_map.mp hmem
  exact ⟨job, hx⟩

/-- The job of a node has the streams of its edges, in their order. -/
theorem job_of_started (h : r.Sound task ns host) (hr : Roster ns) (hn : n ∈ ns) {job : Job}
    (hx : (n.location, job) ∈ r.started) : job.node = n ∧
      job.ingress.map some = n.inputs.map (streamOf r.attached · n.location) ∧
      job.egress.map some = n.outputs.map (streamOf r.attached n.location ·) := by
  obtain ⟨m, hm, hloc, hnode, hin, hout⟩ := h.started _ hx
  obtain rfl : m = n := List.inj_on_of_nodup_map hr.places hm hn hloc
  exact ⟨hnode, hin, hout⟩

theorem lengths_of_started (h : r.Sound task ns host) {x : Location × Job} (hx : x ∈ r.started) :
    x.2.egress.length = x.2.node.outputs.length ∧
      x.2.ingress.length = x.2.node.inputs.length := by
  obtain ⟨m, hm, hloc, hnode, hin, hout⟩ := h.started x hx
  rw [hnode]
  exact ⟨by simpa using congrArg List.length hout, by simpa using congrArg List.length hin⟩

theorem started_perm (h : r.Sound task ns host) (hr : Roster ns) (hcomplete : r.isComplete) :
    (r.started.map fun x => (x.1, x.2.node)).Perm (ns.map fun n => (n.location, n)) := by
  have hnodup : (r.started.map fun x => (x.1, x.2.node)).Nodup := by
    refine List.Nodup.of_map Prod.fst ?_
    rw [List.map_map]
    exact h.startedOnce
  have hnodup' : (ns.map fun n => (n.location, n)).Nodup := by
    refine List.Nodup.of_map Prod.fst ?_
    rw [List.map_map]
    exact hr.places
  refine (List.perm_ext_iff_of_nodup hnodup hnodup').mpr fun e => ?_
  constructor
  · intro he
    obtain ⟨x, hx, rfl⟩ := List.mem_map.mp he
    obtain ⟨m, hm, hloc, hnode, _⟩ := h.started x hx
    exact List.mem_map.mpr ⟨m, hm, by rw [hloc, hnode]⟩
  · intro he
    obtain ⟨n, hn, rfl⟩ := List.mem_map.mp he
    obtain ⟨job, hx⟩ := h.exists_started hcomplete hn
    exact List.mem_map.mpr ⟨_, hx, by rw [(h.job_of_started hr hn hx).1]⟩

theorem attached_perm (h : r.Sound task ns host) (hr : Roster ns) (hrun : r.phase = .run) :
    (r.attached.map fun a => (a.writer, a.reader)).Perm (Plan.edgesOf ns) := by
  refine (List.perm_ext_iff_of_nodup h.once (edgesOf_nodup hr)).mpr fun e => ?_
  constructor
  · intro he
    obtain ⟨a, ha, rfl⟩ := List.mem_map.mp he
    obtain ⟨u, hu, hloc, hout⟩ := h.edges a ha
    exact List.mem_flatMap.mpr ⟨u, hu, List.mem_map.mpr ⟨_, hout, by rw [hloc]⟩⟩
  · intro he
    obtain ⟨u, hu, he⟩ := List.mem_flatMap.mp he
    obtain ⟨l, hl, rfl⟩ := List.mem_map.mp he
    obtain ⟨m, hm, rfl, hin⟩ := hr.wired.readers u hu l hl
    have hsome := h.wired hrun m hm u.location hin
    by_contra hnot
    rw [streamOf_eq_none.mpr hnot] at hsome
    cases hsome

theorem connects (h : r.Sound task ns host) (hr : Roster ns) (hcomplete : r.isComplete)
    {a : Attachment} (ha : a ∈ r.attached) : r.Connects a := by
  have hstream := streamOf_of_mem h.once ha
  obtain ⟨u, hu, hloc, hout⟩ := h.edges a ha
  obtain ⟨m, hm, hread, hin⟩ := hr.wired.readers u hu a.reader hout
  constructor
  · obtain ⟨job, hx⟩ := h.exists_started hcomplete hu
    obtain ⟨hnode, _, hegress⟩ := h.job_of_started hr hu hx
    obtain ⟨j, hj⟩ := List.getElem?_of_mem hout
    refine ⟨job, j, hloc ▸ hx, hnode ▸ hj, getElem?_of_map_some hegress hj ?_⟩
    rw [hloc]
    exact hstream
  · obtain ⟨job, hx⟩ := h.exists_started hcomplete hm
    obtain ⟨hnode, hingress, _⟩ := h.job_of_started hr hm hx
    obtain ⟨i, hi⟩ := List.getElem?_of_mem hin
    refine ⟨job, i, hread ▸ hx, by rw [hnode, ← hloc]; exact hi,
      getElem?_of_map_some hingress hi ?_⟩
    rw [hloc, hread]
    exact hstream

/-- What has been brought about when all calls are answered. -/
theorem deployed (h : r.Sound task ns host) (hr : Roster ns) (hcomplete : r.isComplete) :
    r.Deployed ns where
  started := h.started_perm hr hcomplete
  attached := by
    refine h.attached_perm hr ?_
    rw [isComplete, Bool.and_eq_true, decide_eq_true_eq] at hcomplete
    exact hcomplete.1
  streams := h.streams
  connects _ ha := h.connects hr hcomplete ha
  egress _ hx := (h.lengths_of_started hx).1
  ingress _ hx := (h.lengths_of_started hx).2

end Rollout.Sound

/-- Executors at these locations that have nothing to do, and no job of a later instruction. -/
structure Network.Ready (n : Network) (free : List Location) : Prop where
  hosted : ∀ l ∈ free, ∃ i, n.Hosts l i
  idle : ∀ l ∈ free, ∀ i, n.Hosts l i → (n.slot i).state ∈ [ExecutorState.idle, .done, .failed]
  epochs : ∀ x ∈ n.jobs, x.2.epoch ≤ (n.slot x.1).epoch

section Bound

variable {plan : Plan} {p : UInt64} {free : List Location} {g : Graph} {network : Network}

theorem roster_of_bind (hnames : (free.map (·.name)).Nodup) (hbind : (plan.bind p free).1 = .ok g) :
    Roster g.nodes := by
  obtain ⟨hwired, hplaces, hfree⟩ := Plan.bind_wired hnames.of_map hbind
  refine ⟨hwired, hplaces, fun n hn => ?_⟩
  refine List.Nodup.map_on (fun l hl m hm heq => ?_) (hwired.outputs n hn)
  have hmem : ∀ l ∈ n.outputs, l ∈ free := fun l hl => by
    obtain ⟨m, hm, rfl, _⟩ := hwired.readers n hn l hl
    exact hfree _ (List.mem_map_of_mem hm)
  exact List.inj_on_of_nodup_map hnames (hmem l hl) (hmem m hm) heq

theorem meant_assignments {task : Task} (hsmall : ∀ n ∈ g.nodes, n.encode.length < Codec.lengthLimit) :
    Meant task.id g.nodes (SchedulerState.assignments task g) := by
  rw [Meant, SchedulerState.assignments, List.forall₂_map_right_iff, List.forall₂_same]
  exact fun n hn => ⟨rfl, rfl, Instruction.node_ofNode (hsmall n hn) ..⟩

/-- The nodes of a bound graph come onto executors that are ready. No call fails in any order of
steps, and a dispatch that keeps going on ends with the graph deployed, as does one whose calls are
made in one go each. -/
theorem bound_graph_deployed (task : Task) (hnames : (free.map (·.name)).Nodup)
    (hbind : (plan.bind p free).1 = .ok g) (hready : network.Ready free)
    (hsmall : ∀ n ∈ g.nodes, n.encode.length < Codec.lengthLimit) :
    let nodes := SchedulerState.assignments task g
    let start := Rollout.begin nodes network
    (∀ (events : List Rollout.Event) (k : Nat) (e : ExecutorError),
        (start.run nodes events).calls[k]? ≠ some (.answered (.error e))) ∧
      (∃ enough, ∀ rounds : List (List Rollout.Event),
        (∀ events ∈ rounds, Rollout.Round nodes.length events) → enough ≤ rounds.length →
          (start.run nodes rounds.flatten).isComplete) ∧
      (∀ events, (start.run nodes events).isComplete →
        (start.run nodes events).Deployed g.nodes) ∧
      ∀ (mode : DispatchMode) (order : Phase → List Nat) (w : World Network), w.outside = network →
        ∃ events, Network.client.dispatch mode order nodes w =
            (.ok (), { w with outside := (start.run nodes events).network }) ∧
          (start.run nodes events).isComplete := by
  intro nodes start
  have hr := roster_of_bind hnames hbind
  have hm : Meant task.id g.nodes nodes := meant_assignments hsmall
  have hfree := (Plan.bind_wired hnames.of_map hbind).2.2
  have hhosted : ∀ l ∈ Plan.placesOf g.nodes, ∃ i, network.Hosts l i := fun l hl =>
    hready.hosted l (hfree l hl)
  choose! host hhost using hhosted
  have hplace : ∀ n ∈ g.nodes, n.location ∈ Plan.placesOf g.nodes := fun n hn =>
    List.mem_map_of_mem hn
  have hlength : nodes.length = g.nodes.length := List.length_map ..
  have hsound : start.Sound task.id g.nodes host := Rollout.sound_begin hlength
    (fun n hn => hhost _ (hplace n hn))
    (fun n hn => hready.idle _ (hfree _ (hplace n hn)) _ (hhost _ (hplace n hn))) hready.epochs
  refine ⟨fun events k e hk => ?_, ⟨Rollout.left g.nodes start, fun rounds hrounds henough => ?_⟩,
    fun events hcomplete => ?_, fun mode order w hw => ?_⟩
  · have hafter := hsound.run hr hm events
    obtain ⟨n, hn⟩ := hafter.exists_node hk
    cases hafter.answer_ok hn hk
  · exact hsound.rounds hr hm (hlength ▸ hrounds) henough
  · exact (hsound.run hr hm events).deployed hr hcomplete
  · have hwaiting : ∀ k < g.nodes.length, start.calls[k]? = some .waiting := fun k hk => by
      rw [← hlength] at hk
      show (nodes.map fun _ => Progression.waiting)[k]? = _
      rw [List.getElem?_map, List.getElem?_eq_getElem hk]
      rfl
    have hleads : start.phase.Leads [.setupWriters, .setupReaders, .run] := ⟨rfl, rfl, rfl, rfl⟩
    exact hsound.dispatchPhases_run hr hm hw hwaiting mode order hleads []

end Bound

section Pair

/-! Two executors that wait for a scan and a limit on what it reads. -/

def pairPlan : Plan where
  stages := [.limit 1]
  scan :=
    { catalog := "c", schema := "s", table := "t", columns := { columns := [] }, partitions := 1,
      filters := [] }

def pairHosts : List Location := [⟨"top", "host", 1⟩, ⟨"below", "host", 2⟩]

def pairNetwork : Network where
  workers := pairHosts.map fun location =>
    { location, workplace := { tables := MemoryTables.store [], batchRows := 4, sortLimit := none } }

theorem pair_ready : pairNetwork.Ready pairHosts where
  hosted := by
    refine List.forall_mem_cons.mpr ⟨⟨0, rfl, _, rfl, rfl⟩, List.forall_mem_singleton.mpr ?_⟩
    exact ⟨1, rfl, _, rfl, rfl⟩
  idle l _ i h := by
    obtain ⟨w, hw, _, hslot⟩ := h.slot
    obtain ⟨l, _, rfl⟩ := List.mem_map.mp (List.mem_of_getElem? hw)
    rw [← hslot]
    exact List.mem_cons_self
  epochs x hx := by cases hx

theorem bound_graph_deployed_pair : ∃ (g : Graph) (nodes : List Assignment) (events : List Rollout.Event),
    (pairPlan.bind 1 pairHosts).1 = .ok g ∧ pairNetwork.Ready pairHosts ∧
      Network.client.dispatch .parallel (fun _ => [1, 0]) nodes { outside := pairNetwork } =
        (.ok (), { outside := ((Rollout.begin nodes pairNetwork).run nodes events).network }) ∧
      ((Rollout.begin nodes pairNetwork).run nodes events).Deployed g.nodes := by
  obtain ⟨g, hbind, hsmall⟩ : ∃ g, (pairPlan.bind 1 pairHosts).1 = .ok g ∧
      ∀ n ∈ g.nodes, n.encode.length < Codec.lengthLimit := ⟨_, rfl, by decide +kernel⟩
  let task : Task := { id := 1, query := "", catalog := "c", schema := "s", priority := 0, committed := 0 }
  obtain ⟨_, _, hdeployed, hdispatch⟩ :=
    bound_graph_deployed task (by decide) hbind pair_ready hsmall
  obtain ⟨events, hrun, hcomplete⟩ := hdispatch .parallel (fun _ => [1, 0]) { outside := pairNetwork } rfl
  exact ⟨g, _, events, hbind, pair_ready, hrun, hdeployed events hcomplete⟩

end Pair
end QueryCluster
