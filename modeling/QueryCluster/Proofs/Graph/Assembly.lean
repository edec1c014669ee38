import Mathlib.Data.List.Nodup
import Mathlib.Data.List.Perm.Basic
import QueryCluster.Graph.Build
import QueryCluster.Proofs.Outcome

/-!
# The shape of a bound plan

A graph grows layer by layer. A layer of nodes is put behind the nodes below if the two agree on
who writes to whom; then every edge inside the graph is known at both its ends, only the nodes of
the last layer still have readers outside, and no node reads from itself or from a later one. All
nodes run on executors of the pool, each on its own.
-/
namespace QueryCluster

namespace Plan

def placesOf (nodes : List OperatorNode) : List Location := nodes.map (·.location)

@[simp] theorem placesOf_append (ms ns : List OperatorNode) :
    placesOf (ms ++ ns) = placesOf ms ++ placesOf ns := List.map_append

theorem mem_placesOf {nodes : List OperatorNode} {l : Location} :
    l ∈ placesOf nodes ↔ ∃ n ∈ nodes, n.location = l := List.mem_map

section Layer

variable {locations : List Location} {targets : Targets} {inputs : Nat → List Location}
  {operator : Nat → Operator}

/-- Node `i` of a layer. -/
def layerNode (targets : Targets) (inputs : Nat → List Location) (operator : Nat → Operator)
    (location : Location) (i : Nat) : OperatorNode :=
  { location, inputs := inputs i, outputs := targets.outputs i,
    partitioning := targets.partitioning, operator := operator i }

theorem mem_stageNodes {n : OperatorNode} :
    n ∈ stageNodes locations targets inputs operator ↔
      ∃ i l, locations[i]? = some l ∧ n = layerNode targets inputs operator l i := by
  rw [stageNodes, List.mem_map]
  constructor
  · rintro ⟨⟨l, i⟩, h, rfl⟩
    exact ⟨i, l, List.mem_zipIdx_iff_getElem?.mp h, rfl⟩
  · rintro ⟨i, l, h, rfl⟩
    exact ⟨(l, i), List.mem_zipIdx_iff_getElem?.mpr h, rfl⟩

@[simp] theorem placesOf_stageNodes :
    placesOf (stageNodes locations targets inputs operator) = locations := by
  rw [placesOf, stageNodes, List.map_map]
  exact List.zipIdx_map_fst 0 locations

end Layer

/-- What is built for some targets from a pool. -/
structure Assembled (targets : Targets) (pool : List Location) (a : Assembly) : Prop where
  used : pool.Perm (placesOf a.nodes ++ a.pool)
  shape : ∃ lower inputs operator, a.nodes = lower ++ stageNodes a.tops targets inputs operator
  sources : ∀ m ∈ a.nodes, ∀ u ∈ m.inputs, ∃ n ∈ a.nodes, n.location = u ∧ m.location ∈ n.outputs
  readers : ∀ n ∈ a.nodes, ∀ r ∈ n.outputs,
    (∃ m ∈ a.nodes, m.location = r ∧ n.location ∈ m.inputs) ∨
      ∃ i, a.tops[i]? = some n.location ∧ r ∈ targets.outputs i
  earlier : a.nodes.Pairwise fun n m => m.location ∉ n.inputs
  self : ∀ n ∈ a.nodes, n.location ∉ n.inputs
  inputs : ∀ n ∈ a.nodes, n.inputs.Nodup
  outputs : ∀ n ∈ a.nodes, n.outputs.Nodup

/-- What a layer reads is what the layer below writes to it. -/
structure Linked (tops : List Location) (below : Targets) (layer : List Location)
    (inputs : Nat → List Location) : Prop where
  up : ∀ i u, tops[i]? = some u → ∀ r ∈ below.outputs i, ∃ j, layer[j]? = some r ∧ u ∈ inputs j
  down : ∀ j r, layer[j]? = some r → ∀ u ∈ inputs j, ∃ i, tops[i]? = some u ∧ r ∈ below.outputs i

theorem linked_paired (tops layer : List Location) :
    Linked tops (.paired layer) layer fun i => tops[i]?.toList where
  up i u hu r hr := ⟨i, by simpa [Targets.outputs] using hr, by simp [hu]⟩
  down j r hr u hu := ⟨j, by simpa using hu, by simp [Targets.outputs, hr]⟩

theorem linked_fanOut (tops layer : List Location) (partitioning : Partitioning) :
    Linked tops (.fanOut layer partitioning) layer fun _ => tops where
  up i u hu r hr := by
    obtain ⟨j, hj⟩ := List.mem_iff_getElem?.mp hr
    exact ⟨j, hj, List.mem_of_getElem? hu⟩
  down j r hr u hu := by
    obtain ⟨i, hi⟩ := List.mem_iff_getElem?.mp hu
    exact ⟨i, hi, List.mem_of_getElem? hr⟩

theorem linked_replicate {tops : List Location} {root : Location} {k : Nat} (h : tops.length ≤ k) :
    Linked tops (.paired (List.replicate k root)) [root] fun _ => tops where
  up i u hu r hr := by
    have hr : (List.replicate k root)[i]? = some r := by simpa [Targets.outputs] using hr
    exact ⟨0, by simp [List.eq_of_mem_replicate (List.mem_of_getElem? hr)], List.mem_of_getElem? hu⟩
  down j r hr u hu := by
    obtain ⟨i, hi⟩ := List.mem_iff_getElem?.mp hu
    have hik : i < k := Nat.lt_of_lt_of_le (List.getElem?_eq_some_iff.mp hi).1 h
    have hroot : root = r := by
      cases j with
      | zero => simpa using hr
      | succ j => simp at hr
    exact ⟨i, hi, by simp [Targets.outputs, hik, hroot]⟩

namespace Assembled

variable {targets below : Targets} {pool layer : List Location} {a : Assembly}
  {inputs : Nat → List Location} {operator : Nat → Operator}

theorem places_of_inputs (ha : Assembled targets pool a) {n : OperatorNode} (hn : n ∈ a.nodes)
    {l : Location} (hl : l ∈ n.inputs) : l ∈ placesOf a.nodes := by
  obtain ⟨m, hm, rfl, _⟩ := ha.sources n hn l hl
  exact List.mem_map_of_mem hm

theorem tops_places (ha : Assembled targets pool a) {l : Location} (hl : l ∈ a.tops) :
    l ∈ placesOf a.nodes := by
  obtain ⟨lower, _, _, hshape⟩ := ha.shape
  rw [hshape, placesOf_append, placesOf_stageNodes]
  exact List.mem_append_right _ hl

/-- Node `i` of the last layer writes to the targets of that place. -/
theorem exists_top (ha : Assembled targets pool a) {i : Nat} {l : Location}
    (hl : a.tops[i]? = some l) : ∃ n ∈ a.nodes, n.location = l ∧ n.outputs = targets.outputs i := by
  obtain ⟨lower, inputs, operator, hshape⟩ := ha.shape
  refine ⟨layerNode targets inputs operator l i, ?_, rfl, rfl⟩
  rw [hshape]
  exact List.mem_append_right _ (mem_stageNodes.mpr ⟨i, l, hl, rfl⟩)

theorem mem_pool_of_linked (ha : Assembled below pool a) (hlink : Linked a.tops below layer inputs)
    {i : Nat} {l : Location} (hl : layer[i]? = some l) {u : Location} (hu : u ∈ inputs i) : u ∈ pool := by
  obtain ⟨k, hk, _⟩ := hlink.down i l hl u hu
  exact ha.used.mem_iff.mpr (List.mem_append_left _ (ha.tops_places (List.mem_of_getElem? hk)))

/-- A layer from a fresh part of the pool is put behind what writes to it. -/
theorem add_layer (ha : Assembled below pool a) (layer : List Location) (targets : Targets)
    (operator : Nat → Operator) (hfresh : (layer ++ pool).Nodup)
    (hlink : Linked a.tops below layer inputs) (hinputs : ∀ i, (inputs i).Nodup)
    (houtputs : ∀ i, (targets.outputs i).Nodup) :
    Assembled targets (layer ++ pool)
      { nodes := a.nodes ++ stageNodes layer targets inputs operator, tops := layer,
        pool := a.pool } where
  used := by
    rw [placesOf_append, placesOf_stageNodes]
    have := (ha.used.append_left layer).trans (List.perm_append_comm_assoc layer _ a.pool)
    rwa [← List.append_assoc] at this
  shape := ⟨a.nodes, inputs, operator, rfl⟩
  sources m hm u hu := by
    rcases List.mem_append.mp hm with hm | hm
    · obtain ⟨n, hn, hloc, hout⟩ := ha.sources m hm u hu
      exact ⟨n, List.mem_append_left _ hn, hloc, hout⟩
    · obtain ⟨j, r, hr, rfl⟩ := mem_stageNodes.mp hm
      obtain ⟨i, hi, hout⟩ := hlink.down j r hr u hu
      obtain ⟨n, hn, hloc, houts⟩ := ha.exists_top hi
      exact ⟨n, List.mem_append_left _ hn, hloc, houts ▸ hout⟩
  readers n hn r hr := by
    rcases List.mem_append.mp hn with hn | hn
    · left
      rcases ha.readers n hn r hr with ⟨m, hm, hloc, hin⟩ | ⟨i, hi, hout⟩
      · exact ⟨m, List.mem_append_left _ hm, hloc, hin⟩
      · obtain ⟨j, hj, hin⟩ := hlink.up i n.location hi r hout
        exact ⟨layerNode targets inputs operator r j,
          List.mem_append_right _ (mem_stageNodes.mpr ⟨j, r, hj, rfl⟩), rfl, hin⟩
    · obtain ⟨j, l, hl, rfl⟩ := mem_stageNodes.mp hn
      exact .inr ⟨j, hl, hr⟩
  earlier := by
    obtain ⟨_, _, hdisjoint⟩ := List.nodup_append.mp hfresh
    refine List.pairwise_append.mpr ⟨ha.earlier, ?_, fun n hn m hm hin => ?_⟩
    · refine List.Pairwise.imp_of_mem (R := fun _ _ => True) (fun hn hm _ hin => ?_)
        (List.pairwise_of_forall fun _ _ => trivial)
      obtain ⟨i, l, hl, rfl⟩ := mem_stageNodes.mp hn
      obtain ⟨j, r, hr, rfl⟩ := mem_stageNodes.mp hm
      exact hdisjoint r (List.mem_of_getElem? hr) r (ha.mem_pool_of_linked hlink hl hin) rfl
    · obtain ⟨j, r, hr, rfl⟩ := mem_stageNodes.mp hm
      have hpool := ha.used.mem_iff.mpr (List.mem_append_left _ (ha.places_of_inputs hn hin))
      exact hdisjoint r (List.mem_of_getElem? hr) r hpool rfl
  self n hn hin := by
    obtain ⟨_, _, hdisjoint⟩ := List.nodup_append.mp hfresh
    rcases List.mem_append.mp hn with hn | hn
    · exact ha.self n hn hin
    · obtain ⟨i, l, hl, rfl⟩ := mem_stageNodes.mp hn
      exact hdisjoint l (List.mem_of_getElem? hl) l (ha.mem_pool_of_linked hlink hl hin) rfl
  inputs n hn := by
    rcases List.mem_append.mp hn with hn | hn
    · exact ha.inputs n hn
    · obtain ⟨i, l, _, rfl⟩ := mem_stageNodes.mp hn
      exact hinputs i
  outputs n hn := by
    rcases List.mem_append.mp hn with hn | hn
    · exact ha.outputs n hn
    · obtain ⟨i, l, _, rfl⟩ := mem_stageNodes.mp hn
      exact houtputs i

theorem mem_first {n : OperatorNode}
    (h : n ∈ stageNodes layer targets (fun _ => []) operator) :
    ∃ i l, layer[i]? = some l ∧ n = layerNode targets (fun _ => []) operator l i :=
  mem_stageNodes.mp h

theorem first_layer (houtputs : ∀ i, (targets.outputs i).Nodup) :
    Assembled targets (layer ++ pool)
      { nodes := stageNodes layer targets (fun _ => []) operator, tops := layer, pool } where
  used := by rw [placesOf_stageNodes]
  shape := ⟨[], fun _ => [], operator, rfl⟩
  sources m hm u hu := by
    obtain ⟨j, r, _, rfl⟩ := mem_first hm
    cases hu
  readers n hn r hr := by
    obtain ⟨j, l, hl, rfl⟩ := mem_first hn
    exact .inr ⟨j, hl, hr⟩
  earlier := by
    refine List.Pairwise.imp_of_mem (R := fun _ _ => True) (fun hn _ _ hin => ?_)
      (List.pairwise_of_forall fun _ _ => trivial)
    obtain ⟨i, l, _, rfl⟩ := mem_first hn
    cases hin
  self n hn hin := by
    obtain ⟨i, l, _, rfl⟩ := mem_first hn
    cases hin
  inputs n hn := by
    obtain ⟨i, l, _, rfl⟩ := mem_first hn
    exact List.nodup_nil
  outputs n hn := by
    obtain ⟨i, l, _, rfl⟩ := mem_first hn
    exact houtputs i

end Assembled

theorem takeLocations_ok {n : UInt64} {pool taken rest : List Location}
    (h : takeLocations n pool = .ok (taken, rest)) : pool = taken ++ rest ∧ taken.length = n.toNat := by
  rw [takeLocations] at h
  split at h
  · cases h
  · rename_i hlen
    cases h
    exact ⟨(List.take_append_drop _ _).symm, List.length_take_of_le (by omega)⟩

theorem takeLocation_ok {pool rest : List Location} {l : Location}
    (h : takeLocation pool = .ok (l, rest)) : pool = l :: rest := by
  cases pool with
  | nil => cases h
  | cons l' rest' =>
    cases h
    rfl

/-! ## What a stage takes and leaves to the stages below

Each stage takes its executors off the front of the pool and has the stages below built from the rest. -/

section Taken

variable {below : Below} {targets : Targets} {pool : List Location} {a : Assembly}

theorem pairedStage_ok {width : UInt64} {operator : Operator}
    (h : pairedStage width operator below targets pool = .ok a) :
    ∃ layer rest b, pool = layer ++ rest ∧ layer.length = width.toNat ∧
      below (.paired layer) rest = .ok b ∧
      a = ⟨b.nodes ++ stageNodes layer targets (fun i => b.tops[i]?.toList) fun _ => operator, layer,
        b.pool⟩ := by
  obtain ⟨⟨layer, rest⟩, htake, h⟩ := bind_ok h
  obtain ⟨b, hb, h⟩ := bind_ok h
  obtain ⟨hpool, hlength⟩ := takeLocations_ok htake
  exact ⟨layer, rest, b, hpool, hlength, hb, (Except.ok.inj h).symm⟩

theorem singleStage_ok {operator : Operator} (h : singleStage operator below targets pool = .ok a) :
    ∃ top rest b, pool = top :: rest ∧ below (.fanOut [top] .single) rest = .ok b ∧
      a = ⟨b.nodes ++ stageNodes [top] targets (fun _ => b.tops) fun _ => operator, [top], b.pool⟩ := by
  obtain ⟨⟨top, rest⟩, htake, h⟩ := bind_ok h
  obtain ⟨b, hb, h⟩ := bind_ok h
  exact ⟨top, rest, b, takeLocation_ok htake, hb, (Except.ok.inj h).symm⟩

theorem workerStage_ok {p : UInt64} {partitioning : Partitioning} {worker : Nat → Operator}
    {gather : Operator} (h : workerStage p partitioning worker gather below targets pool = .ok a) :
    ∃ top workers left b, pool = top :: (workers ++ left) ∧ workers.length = p.toNat ∧
      below (.fanOut workers partitioning) left = .ok b ∧
      a = ⟨b.nodes ++ stageNodes workers (.fanOut [top] .single) (fun _ => b.tops) worker ++
        stageNodes [top] targets (fun _ => workers) fun _ => gather, [top], b.pool⟩ := by
  obtain ⟨⟨top, rest⟩, htop, h⟩ := bind_ok h
  obtain ⟨⟨workers, left⟩, hworkers, h⟩ := bind_ok h
  obtain ⟨b, hb, h⟩ := bind_ok h
  cases h
  obtain ⟨rfl, hlength⟩ := takeLocations_ok hworkers
  exact ⟨top, workers, left, b, takeLocation_ok htop, hlength, hb, rfl⟩

theorem assemble_nil_ok {scan : TableScan} {p : UInt64} (h : assemble scan p [] targets pool = .ok a) :
    ∃ layer rest, pool = layer ++ rest ∧ layer.length = (scanWidth scan p).toNat ∧
      a = ⟨scanNodes scan layer targets, layer, rest⟩ := by
  obtain ⟨⟨layer, rest⟩, htake, h⟩ := bind_ok h
  obtain ⟨hpool, hlength⟩ := takeLocations_ok htake
  exact ⟨layer, rest, hpool, hlength, (Except.ok.inj h).symm⟩

/-- The root of a plan stands alone: on an executor of its own in front of a last stage that runs on
several, or else in the last stage. -/
theorem assembleRoot_cases {plan : Plan} {p : UInt64} (h : plan.assembleRoot p pool = .ok a) :
    (∃ root rest b, pool = root :: rest ∧ assemble plan.scan p plan.stages
        (.paired (List.replicate (plan.extent p).top.toNat root)) rest = .ok b ∧
      a = ⟨b.nodes ++ stageNodes [root] .root (fun _ => b.tops) fun _ => .union, [root], b.pool⟩) ∨
    (¬ 1 < (plan.extent p).top ∧ assemble plan.scan p plan.stages .root pool = .ok a) := by
  rw [assembleRoot] at h
  split at h
  · obtain ⟨⟨root, rest⟩, htake, h⟩ := bind_ok h
    obtain ⟨b, hb, h⟩ := bind_ok h
    exact .inl ⟨root, rest, b, takeLocation_ok htake, hb, (Except.ok.inj h).symm⟩
  · rename_i htop
    exact .inr ⟨htop, h⟩

end Taken

/-- A builder that builds what its targets and its pool allow. -/
def Sound (below : Below) : Prop := ∀ targets pool a, pool.Nodup →
  (∀ i, (targets.outputs i).Nodup) → below targets pool = .ok a → Assembled targets pool a

theorem nodup_toList {α : Type} (o : Option α) : o.toList.Nodup := by cases o <;> simp

theorem nodup_outputs_paired (locations : List Location) (i : Nat) :
    ((Targets.paired locations).outputs i).Nodup := nodup_toList _

theorem sound_paired {width : UInt64} {operator : Operator} {below : Below} (h : Sound below) :
    Sound (pairedStage width operator below) := by
  intro targets pool a hpool houtputs hok
  obtain ⟨layer, rest, b, rfl, _, hb, rfl⟩ := pairedStage_ok hok
  have hbelow := h _ _ _ (List.nodup_append.mp hpool).2.1 (nodup_outputs_paired layer) hb
  exact hbelow.add_layer layer targets _ hpool (linked_paired b.tops layer)
    (fun i => nodup_toList _) houtputs

theorem Assembled.tops_nodup {targets : Targets} {pool : List Location} {a : Assembly}
    (ha : Assembled targets pool a) (hpool : pool.Nodup) : a.tops.Nodup := by
  obtain ⟨lower, inputs, operator, hshape⟩ := ha.shape
  have hplaces := (List.nodup_append.mp (ha.used.nodup_iff.mp hpool)).1
  rw [hshape, placesOf_append, placesOf_stageNodes] at hplaces
  exact (List.nodup_append.mp hplaces).2.1

theorem sound_single {operator : Operator} {below : Below} (h : Sound below) :
    Sound (singleStage operator below) := by
  intro targets pool a hpool houtputs hok
  obtain ⟨top, rest, b, rfl, hb, rfl⟩ := singleStage_ok hok
  have hrest := (List.nodup_cons.mp hpool).2
  have hbelow := h (.fanOut [top] .single) _ _ hrest (fun _ => List.nodup_singleton top) hb
  exact hbelow.add_layer [top] targets _ hpool (linked_fanOut b.tops [top] .single)
    (fun _ => hbelow.tops_nodup hrest) houtputs

theorem sound_worker {p : UInt64} {partitioning : Partitioning} {worker : Nat → Operator}
    {gather : Operator} {below : Below} (h : Sound below) :
    Sound (workerStage p partitioning worker gather below) := by
  intro targets pool a hpool houtputs hok
  obtain ⟨top, workers, left, b, rfl, _, hb, rfl⟩ := workerStage_ok hok
  have hrest := (List.nodup_cons.mp hpool).2
  have hleft := (List.nodup_append.mp hrest).2.1
  have hnodup := (List.nodup_append.mp hrest).1
  have hbelow := h (.fanOut workers partitioning) _ _ hleft (fun _ => hnodup) hb
  have hmid := hbelow.add_layer workers (.fanOut [top] .single) worker hrest
    (linked_fanOut b.tops workers partitioning) (fun _ => hbelow.tops_nodup hleft)
    (fun _ => List.nodup_singleton top)
  exact hmid.add_layer [top] targets _ hpool (linked_fanOut workers [top] .single)
    (fun _ => hnodup) houtputs

theorem sound_assemble (scan : TableScan) (p : UInt64) (stages : List Stage) :
    Sound (assemble scan p stages) := by
  induction stages with
  | nil =>
    intro targets pool a hpool houtputs hok
    obtain ⟨layer, rest, rfl, _, rfl⟩ := assemble_nil_ok hok
    exact Assembled.first_layer houtputs
  | cons stage below ih =>
    cases stage with
    | filter predicate => exact sound_paired ih
    | project exprs => exact sound_paired ih
    | group keys aggregates => exact sound_worker ih
    | sort items => exact sound_worker ih
    | limit count => exact sound_single ih

/-- A stage runs on as many executors as its extent says. -/
theorem length_tops {scan : TableScan} {p : UInt64} {stages : List Stage} {targets : Targets}
    {pool : List Location} {a : Assembly} (h : assemble scan p stages targets pool = .ok a) :
    a.tops.length = (extentOf scan p stages).top.toNat := by
  cases stages with
  | nil =>
    obtain ⟨layer, rest, _, hlength, rfl⟩ := assemble_nil_ok h
    exact hlength
  | cons stage below =>
    cases stage with
    | filter | project =>
      obtain ⟨layer, rest, b, _, hlength, _, rfl⟩ := pairedStage_ok h
      exact hlength
    | limit =>
      obtain ⟨top, rest, b, _, _, rfl⟩ := singleStage_ok h
      rfl
    | group | sort =>
      obtain ⟨top, workers, left, b, _, _, _, rfl⟩ := workerStage_ok h
      rfl

/-- A complete graph: every edge is known at both its ends. -/
structure Wired (nodes : List OperatorNode) : Prop where
  sources : ∀ m ∈ nodes, ∀ u ∈ m.inputs, ∃ n ∈ nodes, n.location = u ∧ m.location ∈ n.outputs
  readers : ∀ n ∈ nodes, ∀ r ∈ n.outputs, ∃ m ∈ nodes, m.location = r ∧ n.location ∈ m.inputs
  earlier : nodes.Pairwise fun n m => m.location ∉ n.inputs
  self : ∀ n ∈ nodes, n.location ∉ n.inputs
  inputs : ∀ n ∈ nodes, n.inputs.Nodup
  outputs : ∀ n ∈ nodes, n.outputs.Nodup

theorem Assembled.wired {pool : List Location} {a : Assembly} (ha : Assembled .root pool a) :
    Wired a.nodes where
  sources := ha.sources
  readers n hn r hr := by
    rcases ha.readers n hn r hr with h | ⟨_, _, h⟩
    · exact h
    · cases h
  earlier := ha.earlier
  self := ha.self
  inputs := ha.inputs
  outputs := ha.outputs

/-- All nodes of a plan, up to a root that may gather what the last stage writes. -/
theorem assembleRoot_ok {plan : Plan} {p : UInt64} {pool : List Location} {a : Assembly}
    (hpool : pool.Nodup) (h : plan.assembleRoot p pool = .ok a) : Assembled .root pool a := by
  rcases assembleRoot_cases h with ⟨root, rest, b, rfl, hb, rfl⟩ | ⟨_, h⟩
  · have hrest := (List.nodup_cons.mp hpool).2
    have hbelow := sound_assemble _ _ _ _ _ _ hrest (nodup_outputs_paired _) hb
    exact hbelow.add_layer [root] .root (fun _ => .union) hpool
      (linked_replicate (Nat.le_of_eq (length_tops hb))) (fun _ => hbelow.tops_nodup hrest)
      (fun _ => List.nodup_nil)
  · exact sound_assemble _ _ _ _ _ _ hpool (fun _ => List.nodup_nil) h

theorem bindOnto_ok {plan : Plan} {p : UInt64} {prior nodes : List OperatorNode}
    {free left : List Location} {root : OperatorNode}
    (h : plan.bindOnto p prior free = (.ok root, nodes, left)) :
    ∃ needed a, plan.executorCount p = .ok needed ∧ needed.toNat ≤ free.length ∧
      left = free.drop needed.toNat ∧ plan.assembleRoot p (free.take needed.toNat) = .ok a ∧
      nodes = prior ++ a.nodes ∧ rootOf nodes a.tops = .ok root := by
  rw [bindOnto] at h
  rcases hc : plan.executorCount p with e | needed
  · rw [hc] at h
    cases (Prod.mk.inj h).1
  rw [hc] at h
  simp only at h
  by_cases hlen : free.length < needed.toNat
  · rw [if_pos hlen] at h
    cases (Prod.mk.inj h).1
  rw [if_neg hlen] at h
  rcases ha : plan.assembleRoot p (free.take needed.toNat) with e | a
  · rw [ha] at h
    cases (Prod.mk.inj h).1
  rw [ha] at h
  obtain ⟨hroot, hnodes⟩ := Prod.mk.inj h
  obtain ⟨rfl, rfl⟩ := Prod.mk.inj hnodes
  refine ⟨needed, a, rfl, by omega, rfl, ha, rfl, ?_⟩
  rcases hr : rootOf (prior ++ a.nodes) a.tops with e | r
  · rw [hr] at hroot
    cases hroot
  · rw [hr] at hroot
    cases hroot
    rfl

theorem bind_graph_ok {plan : Plan} {p : UInt64} {free : List Location} {g : Graph}
    (h : (plan.bind p free).1 = .ok g) :
    ∃ needed a, plan.executorCount p = .ok needed ∧ needed.toNat ≤ free.length ∧
      (plan.bind p free).2 = free.drop needed.toNat ∧
      plan.assembleRoot p (free.take needed.toNat) = .ok a ∧ a.nodes = g.nodes ∧
      rootOf g.nodes a.tops = .ok g.root := by
  rw [bind] at h ⊢
  rcases hb : plan.bindOnto p [] free with ⟨_ | root, nodes, left⟩
  · rw [hb] at h
    cases h
  · rw [hb] at h
    cases h
    obtain ⟨needed, a, hcount, hlen, rfl, ha, rfl, hroot⟩ := bindOnto_ok hb
    exact ⟨needed, a, hcount, hlen, rfl, ha, rfl, hroot⟩

/-- A bound graph is complete and runs on executors that were free, one for each node. -/
theorem bind_wired {plan : Plan} {p : UInt64} {free : List Location} {g : Graph}
    (hfree : free.Nodup) (h : (plan.bind p free).1 = .ok g) :
    Wired g.nodes ∧ (placesOf g.nodes).Nodup ∧ ∀ l ∈ placesOf g.nodes, l ∈ free := by
  obtain ⟨needed, a, _, _, _, hroot, hg, _⟩ := bind_graph_ok h
  have htake := (List.take_sublist needed.toNat free).nodup hfree
  have ha := assembleRoot_ok htake hroot
  refine ⟨hg ▸ ha.wired, ?_, fun l hl => ?_⟩
  · exact hg ▸ (List.nodup_append.mp (ha.used.nodup_iff.mp htake)).1
  · refine List.mem_of_mem_take (ha.used.mem_iff.mpr (List.mem_append_left _ ?_))
    rwa [hg]

end Plan
end QueryCluster
