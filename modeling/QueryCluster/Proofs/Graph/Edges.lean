import Mathlib.Logic.Relation
import QueryCluster.Proofs.Graph.Counting

/-!
# No edge dangles

The nodes of a bound plan agree on their edges. What a stage writes to is decided before the stage
below it is built, so an invariant of building says which nodes still have their readers to come: only
those of the last layer. Only scans read nothing, only the root writes nothing, and whoever writes to
a worker writes to all workers of its stage, in one order.
-/
namespace QueryCluster.Plan

open Relation (TransGen ReflTransGen)

/-- The stage that a worker takes a share of. -/
def sharedStage? : Operator → Option Stage
  | .group keys aggregates _ => some (.group keys aggregates)
  | .localSort items => some (.sort items)
  | _ => none

/-- The workers of a stage, one of which is the node. All that write to it list them in this order. -/
structure Crew (p : UInt64) (nodes : List OperatorNode) (m : OperatorNode) (workers : List Location) :
    Prop where
  length : workers.length = p.toNat
  nodup : workers.Nodup
  self : m.location ∈ workers
  members : ∀ l ∈ workers, ∃ k ∈ nodes,
    k.location = l ∧ sharedStage? k.operator = sharedStage? m.operator ∧ k.inputs = m.inputs
  feeders : ∀ n ∈ nodes, n.location ∈ m.inputs → n.outputs = workers

/-- What is built has readers and sources for all but its last layer. -/
structure Fitted (p : UInt64) (targets : Targets) (a : Assembly) : Prop where
  shape : ∃ lower inputs operator, a.nodes = lower ++ stageNodes a.tops targets inputs operator ∧
    ∀ n ∈ lower, n.outputs ≠ []
  scans : ∀ n ∈ a.nodes, n.inputs = [] ↔ n.operator.type = .scan
  crews : ∀ m ∈ a.nodes, (sharedStage? m.operator).isSome → ∃ workers, Crew p a.nodes m workers

theorem Assembled.places_nodup {targets : Targets} {pool : List Location} {a : Assembly}
    (ha : Assembled targets pool a) (hpool : pool.Nodup) : (placesOf a.nodes).Nodup :=
  (List.nodup_append.mp (ha.used.nodup_iff.mp hpool)).1

/-- Of what is built, only nodes of the last layer lack readers. -/
theorem Fitted.outputs_ne {p : UInt64} {targets : Targets} {a : Assembly} (hf : Fitted p targets a)
    (hwrites : ∀ i < a.tops.length, targets.outputs i ≠ []) {n : OperatorNode} (hn : n ∈ a.nodes) :
    n.outputs ≠ [] := by
  obtain ⟨lower, inputs, operator, hshape, hlower⟩ := hf.shape
  rw [hshape] at hn
  rcases List.mem_append.mp hn with hn | hn
  · exact hlower n hn
  · obtain ⟨i, l, hl, rfl⟩ := mem_stageNodes.mp hn
    exact hwrites i (List.getElem?_eq_some_iff.mp hl).1

section Layer

variable {p : UInt64} {targets below : Targets} {pool layer : List Location} {a : Assembly}
  {inputs : Nat → List Location} {operator : Nat → Operator}

/-- A layer that reads what is built below it, and that has its crews, keeps everything fitted. -/
theorem Fitted.add_layer (hf : Fitted p below a)
    (hb : Assembled targets (layer ++ pool)
      { nodes := a.nodes ++ stageNodes layer targets inputs operator, tops := layer, pool := a.pool })
    (hwrites : ∀ i < a.tops.length, below.outputs i ≠ [])
    (hreads : ∀ i < layer.length, inputs i ≠ []) (hscan : ∀ i, (operator i).type ≠ .scan)
    (hcrews : ∀ m ∈ stageNodes layer targets inputs operator, (sharedStage? m.operator).isSome →
      ∃ workers, Crew p (a.nodes ++ stageNodes layer targets inputs operator) m workers) :
    Fitted p targets
      { nodes := a.nodes ++ stageNodes layer targets inputs operator, tops := layer,
        pool := a.pool } where
  shape := ⟨a.nodes, inputs, operator, rfl, fun n hn => hf.outputs_ne hwrites hn⟩
  scans n hn := by
    rcases List.mem_append.mp hn with hn | hn
    · exact hf.scans n hn
    · obtain ⟨i, l, hl, rfl⟩ := mem_stageNodes.mp hn
      exact ⟨fun h => absurd h (hreads i (List.getElem?_eq_some_iff.mp hl).1),
        fun h => absurd h (hscan i)⟩
  crews m hm hshared := by
    rcases List.mem_append.mp hm with hm | hm
    · obtain ⟨workers, hcrew⟩ := hf.crews m hm hshared
      refine ⟨workers, { hcrew with members := fun l hl => ?_, feeders := fun n hn hin => ?_ }⟩
      · obtain ⟨k, hk, hrest⟩ := hcrew.members l hl
        exact ⟨k, List.mem_append_left _ hk, hrest⟩
      · rcases List.mem_append.mp hn with hn | hn
        · exact hcrew.feeders n hn hin
        · exact absurd hin ((List.pairwise_append.mp hb.earlier).2.2 m hm n hn)
    · exact hcrews m hm hshared

/-- A layer of operators that share no stage needs no crews. -/
theorem no_crews (hshared : ∀ i, sharedStage? (operator i) = none) {nodes : List OperatorNode} :
    ∀ m ∈ stageNodes layer targets inputs operator, (sharedStage? m.operator).isSome →
      ∃ workers, Crew p nodes m workers := by
  intro m hm hsome
  obtain ⟨i, l, _, rfl⟩ := mem_stageNodes.mp hm
  rw [show sharedStage? (layerNode targets inputs operator l i).operator = none from hshared i] at hsome
  cases hsome

end Layer

/-- A builder of which all that it builds is fitted, with so many nodes in its last layer. -/
def Fitting (p : UInt64) (below : Below) (top : Nat) : Prop := ∀ targets pool a, pool.Nodup →
  (∀ i, (targets.outputs i).Nodup) → below targets pool = .ok a →
    Fitted p targets a ∧ a.tops.length = top

section Builders

variable {p : UInt64} {below : Below} {top : Nat} {operator : Operator}

theorem fitting_paired {width : UInt64} (hs : Sound below) (h : Fitting p below width.toNat)
    (hscan : operator.type ≠ .scan) (hshared : sharedStage? operator = none) :
    Fitting p (pairedStage width operator below) width.toNat := by
  intro targets pool a hpool houtputs hok
  have hb := sound_paired hs targets pool a hpool houtputs hok
  obtain ⟨layer, rest, b, rfl, hwidth, hbelow, rfl⟩ := pairedStage_ok hok
  obtain ⟨hf, htops⟩ := h _ _ _ (List.nodup_append.mp hpool).2.1 (nodup_outputs_paired layer) hbelow
  refine ⟨hf.add_layer hb (fun i hi => ?_) (fun i hi => ?_) (fun _ => hscan)
    (no_crews fun _ => hshared), hwidth⟩
  · rw [Targets.outputs, List.getElem?_eq_getElem (show i < layer.length by omega)]
    exact List.cons_ne_nil _ _
  · rw [List.getElem?_eq_getElem (show i < b.tops.length by omega)]
    exact List.cons_ne_nil _ _

theorem fitting_single (hs : Sound below) (h : Fitting p below top) (htop : 0 < top)
    (hscan : operator.type ≠ .scan) (hshared : sharedStage? operator = none) :
    Fitting p (singleStage operator below) 1 := by
  intro targets pool a hpool houtputs hok
  have hb := sound_single hs targets pool a hpool houtputs hok
  obtain ⟨l, rest, b, rfl, hbelow, rfl⟩ := singleStage_ok hok
  obtain ⟨hf, htops⟩ :=
    h (.fanOut [l] .single) _ _ (List.nodup_cons.mp hpool).2 (fun _ => List.nodup_singleton l) hbelow
  have hne : b.tops ≠ [] := List.length_pos_iff.mp (by omega)
  exact ⟨@Fitted.add_layer _ _ _ rest [l] _ _ _ hf hb (fun _ _ => List.cons_ne_nil _ _)
    (fun _ _ => hne) (fun _ => hscan) (no_crews fun _ => hshared), rfl⟩

/-- Workers are one crew. -/
theorem crew_workers {partitioning : Partitioning} {targets : Targets} {workers pool : List Location}
    {b : Assembly} {worker : Nat → Operator} (hbelow : Assembled (.fanOut workers partitioning) pool b)
    (hlength : workers.length = p.toNat) (hnodup : workers.Nodup)
    (hplaces : (placesOf (b.nodes ++ stageNodes workers targets (fun _ => b.tops) worker)).Nodup)
    (hsame : ∀ i j, sharedStage? (worker i) = sharedStage? (worker j)) {m : OperatorNode}
    (hm : m ∈ stageNodes workers targets (fun _ => b.tops) worker) :
    Crew p (b.nodes ++ stageNodes workers targets (fun _ => b.tops) worker) m workers := by
  obtain ⟨i, l, hl, rfl⟩ := mem_stageNodes.mp hm
  refine ⟨hlength, hnodup, List.mem_of_getElem? hl, fun k hk => ?_, fun n hn hin => ?_⟩
  · obtain ⟨j, hj⟩ := List.getElem?_of_mem hk
    exact ⟨layerNode targets (fun _ => b.tops) worker k j,
      List.mem_append_right _ (mem_stageNodes.mpr ⟨j, k, hj, rfl⟩), rfl, hsame j i, rfl⟩
  · obtain ⟨j, hj⟩ := List.getElem?_of_mem hin
    obtain ⟨n', hn', hloc, houtputs⟩ := hbelow.exists_top hj
    obtain rfl : n = n' :=
      List.inj_on_of_nodup_map hplaces hn (List.mem_append_left _ hn') hloc.symm
    exact houtputs

theorem fitting_worker {partitioning : Partitioning} {worker : Nat → Operator} (hp : p ≠ 0)
    (hs : Sound below) (h : Fitting p below top) (htop : 0 < top)
    (hsame : ∀ i j, sharedStage? (worker i) = sharedStage? (worker j))
    (hworker : ∀ i, (worker i).type ≠ .scan) (hscan : operator.type ≠ .scan)
    (hshared : sharedStage? operator = none) :
    Fitting p (workerStage p partitioning worker operator below) 1 := by
  intro targets pool a hpool houtputs hok
  have hb := sound_worker hs targets pool a hpool houtputs hok
  obtain ⟨l, workers, left, b, rfl, hlength, hbelow, rfl⟩ := workerStage_ok hok
  have hrest := (List.nodup_cons.mp hpool).2
  have hleft := (List.nodup_append.mp hrest).2.1
  have hnodup := (List.nodup_append.mp hrest).1
  have hbuilt := hs (.fanOut workers partitioning) _ _ hleft (fun _ => hnodup) hbelow
  obtain ⟨hf, htops⟩ := h (.fanOut workers partitioning) _ _ hleft (fun _ => hnodup) hbelow
  have hpos : 0 < p.toNat := toNat_pos hp
  have hne : b.tops ≠ [] := List.length_pos_iff.mp (by omega)
  have hcrew : workers ≠ [] := List.length_pos_iff.mp (by omega)
  have hmid := hbuilt.add_layer workers (.fanOut [l] .single) worker hrest
    (linked_fanOut b.tops workers partitioning) (fun _ => hbuilt.tops_nodup hleft)
    (fun _ => List.nodup_singleton l)
  have hfit := hf.add_layer hmid (fun _ _ => hcrew) (fun _ _ => hne) hworker fun m hm _ =>
    ⟨workers, crew_workers hbuilt hlength hnodup (hmid.places_nodup hrest) hsame hm⟩
  exact ⟨@Fitted.add_layer _ _ _ (workers ++ left) [l] _ _ _ hfit hb (fun _ _ => List.cons_ne_nil _ _)
    (fun _ _ => hcrew) (fun _ => hscan) (no_crews fun _ => hshared), rfl⟩

theorem scanNodes_eq (scan : TableScan) (layer : List Location) (targets : Targets) :
    ∃ operator, scanNodes scan layer targets = stageNodes layer targets (fun _ => []) operator ∧
      (∀ i, (operator i).type = .scan) ∧ ∀ i, sharedStage? (operator i) = none :=
  ⟨_, rfl, fun _ => rfl, fun _ => rfl⟩

theorem fitting_assemble (scan : TableScan) (hp : p ≠ 0) (stages : List Stage) :
    Fitting p (assemble scan p stages) (extentOf scan p stages).top.toNat := by
  induction stages with
  | nil =>
    intro targets pool a _ _ hok
    obtain ⟨layer, rest, _, hwidth, rfl⟩ := assemble_nil_ok hok
    obtain ⟨operator, hnodes, htype, hshared⟩ := scanNodes_eq scan layer targets
    rw [hnodes]
    refine ⟨⟨⟨[], fun _ => [], operator, rfl, nofun⟩, fun n hn => ?_,
      @no_crews p targets layer (fun _ => []) operator hshared _⟩, hwidth⟩
    have hn : n ∈ stageNodes layer targets (fun _ => []) operator := hn
    obtain ⟨i, l, _, rfl⟩ := mem_stageNodes.mp hn
    exact ⟨fun _ => htype i, fun _ => rfl⟩
  | cons stage below ih =>
    have hs := sound_assemble scan p below
    have htop : 0 < (extentOf scan p below).top.toNat := top_pos hp below
    cases stage with
    | filter predicate => exact fitting_paired hs ih nofun rfl
    | project exprs => exact fitting_paired hs ih nofun rfl
    | group keys aggregates =>
      exact fitting_worker hp hs ih htop (fun _ _ => rfl) (fun _ => nofun) nofun rfl
    | sort items =>
      exact fitting_worker hp hs ih htop (fun _ _ => rfl) (fun _ => nofun) nofun rfl
    | limit count => exact fitting_single hs ih htop nofun rfl

end Builders

/-- A whole plan is fitted, its root on its own in the last layer. -/
theorem fitted_assembleRoot {plan : Plan} {p : UInt64} (hp : p ≠ 0) {pool : List Location}
    {a : Assembly} (hpool : pool.Nodup) (h : plan.assembleRoot p pool = .ok a) : Fitted p .root a := by
  have hb := assembleRoot_ok hpool h
  have hfit := fitting_assemble plan.scan hp plan.stages
  rcases assembleRoot_cases h with ⟨root, rest, b, rfl, hbelow, rfl⟩ | ⟨_, h⟩
  · obtain ⟨hf, htops⟩ := hfit _ _ _ (List.nodup_cons.mp hpool).2 (nodup_outputs_paired _) hbelow
    have hpos : 0 < (extentOf plan.scan p plan.stages).top.toNat := top_pos hp _
    have hne : b.tops ≠ [] := List.length_pos_iff.mp (by omega)
    refine @Fitted.add_layer _ _ _ rest [root] _ _ _ hf hb (fun i hi => ?_) (fun _ _ => hne)
      (fun _ h => by cases h) (no_crews fun _ => rfl)
    rw [Targets.outputs, List.getElem?_replicate, if_pos (htops ▸ hi)]
    exact List.cons_ne_nil _ _
  · exact (hfit .root _ _ hpool (fun _ => List.nodup_nil) h).1

/-- One node writes to another. -/
def Edge (nodes : List OperatorNode) (n m : OperatorNode) : Prop :=
  n ∈ nodes ∧ m ∈ nodes ∧ m.location ∈ n.outputs

/-- Nodes that agree on their edges, all of which lead to the root. -/
structure Joined (p : UInt64) (nodes : List OperatorNode) (root : OperatorNode) : Prop where
  places : (placesOf nodes).Nodup
  edges : ∀ n ∈ nodes, ∀ m ∈ nodes, n.location ∈ m.inputs ↔ m.location ∈ n.outputs
  inputs : ∀ n ∈ nodes, n.inputs.Nodup ∧ ∀ l ∈ n.inputs, l ∈ placesOf nodes
  outputs : ∀ n ∈ nodes, n.outputs.Nodup ∧ ∀ l ∈ n.outputs, l ∈ placesOf nodes
  last : root ∈ nodes ∧ ∀ n ∈ nodes, n.outputs = [] ↔ n = root
  scans : ∀ n ∈ nodes, n.inputs = [] ↔ n.operator.type = .scan
  earlier : ∀ front n back, nodes = front ++ n :: back → ∀ l ∈ n.inputs, l ∈ placesOf front
  acyclic : ∀ n, ¬ TransGen (Edge nodes) n n
  reaches : ∀ n ∈ nodes, ReflTransGen (Edge nodes) n root
  crews : ∀ m ∈ nodes, (sharedStage? m.operator).isSome → ∃ workers, Crew p nodes m workers

section Order

variable {nodes : List OperatorNode} {n m : OperatorNode}

theorem Wired.edges (hw : Wired nodes) (hplaces : (placesOf nodes).Nodup) (hn : n ∈ nodes)
    (hm : m ∈ nodes) : n.location ∈ m.inputs ↔ m.location ∈ n.outputs := by
  constructor
  · intro h
    obtain ⟨n', hn', hloc, hout⟩ := hw.sources m hm _ h
    rwa [List.inj_on_of_nodup_map hplaces hn' hn hloc] at hout
  · intro h
    obtain ⟨m', hm', hloc, hin⟩ := hw.readers n hn _ h
    rwa [List.inj_on_of_nodup_map hplaces hm' hm hloc] at hin

theorem Wired.mem_front (hw : Wired nodes) {front back : List OperatorNode}
    (hsplit : nodes = front ++ n :: back) {l : Location} (hl : l ∈ n.inputs) : l ∈ placesOf front := by
  have hn : n ∈ nodes := hsplit ▸ List.mem_append_right _ List.mem_cons_self
  obtain ⟨u, hu, rfl, _⟩ := hw.sources n hn l hl
  have hearlier := hw.earlier
  rw [hsplit] at hu hearlier
  rcases List.mem_append.mp hu with hu | hu
  · exact List.mem_map_of_mem hu
  · rcases List.mem_cons.mp hu with rfl | hu
    · exact absurd hl (hw.self u hn)
    · have hlater := (List.pairwise_cons.mp (List.pairwise_append.mp hearlier).2.1).1
      exact absurd hl (hlater u hu)

/-- The place of a node in the order of building. -/
def rank (nodes : List OperatorNode) (n : OperatorNode) : Nat := (placesOf nodes).idxOf n.location

theorem rank_lt_length (hn : n ∈ nodes) : rank nodes n < nodes.length := by
  have hlt := List.idxOf_lt_length_of_mem (List.mem_map_of_mem (f := OperatorNode.location) hn)
  rwa [List.length_map] at hlt

/-- Edges lead to nodes that were built later. -/
theorem Wired.rank_lt (hw : Wired nodes) (hplaces : (placesOf nodes).Nodup) (h : Edge nodes n m) :
    rank nodes n < rank nodes m := by
  obtain ⟨hn, hm, hout⟩ := h
  obtain ⟨front, back, hsplit⟩ := List.append_of_mem hm
  have hfront := hw.mem_front hsplit ((hw.edges hplaces hn hm).mpr hout)
  have hsplit' : placesOf nodes = placesOf front ++ m.location :: placesOf back := by
    rw [hsplit, placesOf_append]
    rfl
  have hm' : m.location ∉ placesOf front := by
    rw [hsplit'] at hplaces
    intro hmem
    exact (List.nodup_append.mp hplaces).2.2 _ hmem _ List.mem_cons_self rfl
  rw [rank, rank, hsplit', List.idxOf_append_of_mem hfront, List.idxOf_append_of_notMem hm',
    List.idxOf_cons_self, Nat.add_zero]
  exact List.idxOf_lt_length_of_mem hfront

theorem Wired.acyclic (hw : Wired nodes) (hplaces : (placesOf nodes).Nodup) (n : OperatorNode) :
    ¬ TransGen (Edge nodes) n n := by
  have hlt : ∀ m, TransGen (Edge nodes) n m → rank nodes n < rank nodes m := fun m h => by
    induction h with
    | single h => exact hw.rank_lt hplaces h
    | tail _ h ih => exact Nat.lt_trans ih (hw.rank_lt hplaces h)
  exact fun h => Nat.lt_irrefl _ (hlt n h)

/-- From every node one can go on to the node that has no outputs. -/
theorem Wired.reaches (hw : Wired nodes) (hplaces : (placesOf nodes).Nodup) {root : OperatorNode}
    (hroot : ∀ n ∈ nodes, n.outputs = [] → n = root) (hn : n ∈ nodes) :
    ReflTransGen (Edge nodes) n root := by
  induction hleft : nodes.length - rank nodes n using Nat.strongRecOn generalizing n with
  | ind left ih =>
    rcases hout : n.outputs with _ | ⟨l, rest⟩
    · rw [hroot n hn hout]
    · have hl : l ∈ n.outputs := hout ▸ List.mem_cons_self
      obtain ⟨m, hm, rfl, _⟩ := hw.readers n hn l hl
      have hlt := hw.rank_lt hplaces ⟨hn, hm, hl⟩
      have hlast := rank_lt_length hm
      exact .head ⟨hn, hm, hl⟩ (ih _ (by omega) hm rfl)

end Order

theorem Fitted.joined {p : UInt64} {pool : List Location} {a : Assembly} {root : OperatorNode}
    (hf : Fitted p .root a) (ha : Assembled .root pool a) (hpool : pool.Nodup)
    (hroot : root ∈ a.nodes) (htops : a.tops = [root.location]) : Joined p a.nodes root := by
  have hw := ha.wired
  have hplaces := ha.places_nodup hpool
  have hlast : ∀ n ∈ a.nodes, n.outputs = [] ↔ n = root := by
    obtain ⟨lower, inputs, operator, hshape, hlower⟩ := hf.shape
    obtain ⟨n', hn', hloc, hnone⟩ := ha.exists_top (show a.tops[0]? = some root.location by rw [htops]; rfl)
    obtain rfl := List.inj_on_of_nodup_map hplaces hn' hroot hloc
    intro n hn
    refine ⟨fun h => ?_, fun h => h ▸ hnone⟩
    rw [hshape] at hn
    rcases List.mem_append.mp hn with hlow | htop
    · exact absurd h (hlower n hlow)
    · obtain ⟨i, l, hl, rfl⟩ := mem_stageNodes.mp htop
      have hl := List.mem_of_getElem? hl
      rw [htops, List.mem_singleton] at hl
      exact List.inj_on_of_nodup_map hplaces (hshape ▸ hn) hroot hl
  refine ⟨hplaces, fun n hn m hm => hw.edges hplaces hn hm, fun n hn => ⟨hw.inputs n hn, fun l hl => ?_⟩,
    fun n hn => ⟨hw.outputs n hn, fun l hl => ?_⟩, ⟨hroot, hlast⟩, hf.scans,
    fun front n back hsplit l hl => hw.mem_front hsplit hl, hw.acyclic hplaces,
    fun n hn => hw.reaches hplaces (fun n hn => (hlast n hn).mp) hn, hf.crews⟩
  · exact ha.places_of_inputs hn hl
  · obtain ⟨m, hm, rfl, _⟩ := hw.readers n hn l hl
    exact List.mem_map_of_mem hm

/-- Binding a plan to enough executors appends nodes whose edges all fit. -/
theorem bindOnto_joined {plan : Plan} {p : UInt64} {free : List Location} (hp : p ≠ 0)
    (hfree : free.Nodup) (henough : plan.demand p ≤ free.length) (hword : free.length < 2 ^ 64)
    (prior : List OperatorNode) :
    ∃ root added, plan.bindOnto p prior free =
      (.ok root, prior ++ added, free.drop (plan.demand p)) ∧ Joined p added root := by
  obtain ⟨root, a, hbind, hroot, ha, _, _, hmem, htops, _⟩ :=
    bindOnto_enough hp (Nat.lt_of_le_of_lt henough hword) hfree henough prior
  have htake := (List.take_sublist (plan.demand p) free).nodup hfree
  exact ⟨root, a.nodes, hbind, (fitted_assembleRoot hp htake hroot).joined ha htake hmem htops⟩

theorem rootOf_ok {nodes : List OperatorNode} {tops : List Location} {root : OperatorNode}
    (h : rootOf nodes tops = .ok root) : root ∈ nodes ∧ tops.head? = some root.location := by
  cases tops with
  | nil => cases h
  | cons l tops =>
    rw [rootOf] at h
    split at h
    · rename_i n hfind
      cases h
      have hl := List.find?_some hfind
      exact ⟨List.mem_reverse.mp (List.mem_of_find?_eq_some hfind), by simpa [eq_comm] using hl⟩
    · cases h

/-- The last layer is the root alone. -/
theorem length_tops_assembleRoot {plan : Plan} {p : UInt64} (hp : p ≠ 0) {pool : List Location}
    {a : Assembly} (h : plan.assembleRoot p pool = .ok a) : a.tops.length = 1 := by
  rw [assembleRoot] at h
  split at h
  · obtain ⟨⟨root, rest⟩, _, h⟩ := bind_ok h
    obtain ⟨b, _, h⟩ := bind_ok h
    cases h
    rfl
  · rename_i htop
    have hpos : 0 < (extentOf plan.scan p plan.stages).top.toNat := top_pos hp plan.stages
    have hle : ¬ 1 < (extentOf plan.scan p plan.stages).top.toNat := htop
    rw [length_tops h]
    omega

/-- A bound graph agrees on its edges, all of which lead to its root. -/
theorem bind_joined {plan : Plan} {p : UInt64} {free : List Location} {g : Graph}
    (hfree : free.Nodup) (h : (plan.bind p free).1 = .ok g) : Joined p g.nodes g.root := by
  obtain ⟨needed, a, hcount, _, _, hroot, hnodes, hrootOf⟩ := bind_graph_ok h
  have hp : p ≠ 0 := by
    rintro rfl
    cases hcount
  have htake := (List.take_sublist needed.toNat free).nodup hfree
  obtain ⟨hmem, hhead⟩ := rootOf_ok hrootOf
  obtain ⟨l, htops⟩ := List.length_eq_one_iff.mp (length_tops_assembleRoot hp hroot)
  rw [htops] at hhead
  obtain rfl : l = g.root.location := Option.some.inj hhead
  rw [← hnodes] at hmem ⊢
  exact (fitted_assembleRoot hp htake hroot).joined (assembleRoot_ok htake hroot) htake hmem htops

section Team

/-! Two workers that group what two scans read. -/

def teamPlan : Plan where
  stages := [.group ["k"] []]
  scan :=
    { catalog := "c", schema := "s", table := "t", columns := { columns := [⟨"k", .int64⟩] },
      partitions := 2, filters := [] }

def teamHosts : List Location := ["top", "one", "two", "left", "right"].map fun name => ⟨name, "host", 1⟩

theorem bindOnto_joined_team : ∃ root added, teamPlan.bindOnto 2 [] teamHosts = (.ok root, added, []) ∧
    Joined 2 added root := by
  obtain ⟨root, added, hbind, hjoined⟩ :=
    @bindOnto_joined teamPlan 2 teamHosts (by decide) (by decide) (by decide) (by decide) []
  exact ⟨root, added, hbind, hjoined⟩

end Team

end QueryCluster.Plan
