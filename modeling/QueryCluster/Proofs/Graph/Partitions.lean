import QueryCluster.Proofs.Graph.Counting
import QueryCluster.Proofs.Operator.Scanning

/-!
# Every stored partition is read once

The scans of a bound plan share out the partitions of its table: no more scans than the parallelism or the
partitions allow, and one if there are no partitions. Scan `i` of `k` takes every `k`-th partition from `i`
on, so the scans have all partitions between them, none of them twice, and about as many each. No stage
above adds a scan or takes one away.
-/
namespace QueryCluster

def OperatorNode.scan? (n : OperatorNode) : Option PartitionScan :=
  match n.operator with
  | .scan part => some part
  | _ => none

def scansOf (nodes : List OperatorNode) : List PartitionScan := nodes.filterMap OperatorNode.scan?

@[simp] theorem scansOf_append (xs ys : List OperatorNode) :
    scansOf (xs ++ ys) = scansOf xs ++ scansOf ys := List.filterMap_append

/-- Lists of partitions that `width` scans read, with the partitions `0 ..< n` between them. -/
structure SharedOut (n : UInt64) (width : Nat) (parts : List (List UInt64)) : Prop where
  count : parts.length = width
  once : parts.flatten.Nodup
  all : ∀ i, i ∈ parts.flatten ↔ i < n
  ascending : ∀ part ∈ parts, part.Pairwise (· < ·)
  even : ∀ part ∈ parts, ∀ other ∈ parts, part.length ≤ other.length + 1

namespace Plan

/-- The partitions of each of `k` scans. -/
def strides (n : UInt64) (k : Nat) : List (List UInt64) := (List.range k).map (everyNth n.toNat k)

section Strides

variable {n : UInt64} {k : Nat}

theorem flatten_strides : (strides n k).flatten =
    ((List.range k).flatMap fun i => List.range' i ((n.toNat - i + k - 1) / k) k).map UInt64.ofNat := by
  rw [strides, ← List.flatMap_def, List.map_flatMap]
  rfl

theorem mem_flatten_strides (hk : 0 < k) (i : UInt64) : i ∈ (strides n k).flatten ↔ i < n := by
  rw [flatten_strides, List.mem_map]
  simp only [(steps_perm hk).mem_iff, List.mem_range]
  constructor
  · rintro ⟨m, hm, rfl⟩
    have hsmall : m < 2 ^ 64 := Nat.lt_trans hm n.toNat_lt
    rwa [UInt64.lt_iff_toNat_lt, UInt64.toNat_ofNat_of_lt' hsmall]
  · intro hi
    exact ⟨i.toNat, UInt64.lt_iff_toNat_lt.mp hi, UInt64.ofNat_toNat⟩

theorem nodup_flatten_strides (hk : 0 < k) : (strides n k).flatten.Nodup := by
  rw [flatten_strides]
  have hperm := @steps_perm n.toNat k hk
  refine (hperm.nodup_iff.mpr List.nodup_range).map_on fun a ha b hb hab => ?_
  have hsmall : ∀ m, m ∈ ((List.range k).flatMap fun i =>
      List.range' i ((n.toNat - i + k - 1) / k) k) → m < 2 ^ 64 := fun m hm =>
    Nat.lt_trans (List.mem_range.mp (hperm.mem_iff.mp hm)) n.toNat_lt
  rw [← UInt64.toNat_ofNat_of_lt' (hsmall a ha), hab, UInt64.toNat_ofNat_of_lt' (hsmall b hb)]

theorem ascending_everyNth {i : Nat} (hi : i < k) : (everyNth n.toNat k i).Pairwise (· < ·) := by
  have hk : 0 < k := Nat.zero_lt_of_lt hi
  rw [everyNth, List.pairwise_map]
  refine List.Pairwise.imp_of_mem (fun {a b} ha hb hab => ?_) (List.pairwise_lt_range' k hk)
  have hsmall : ∀ m ∈ List.range' i ((n.toNat - i + k - 1) / k) k, m < 2 ^ 64 := fun m hm =>
    Nat.lt_trans ((mem_steps hi).mp hm).1 n.toNat_lt
  rwa [UInt64.lt_iff_toNat_lt, UInt64.toNat_ofNat_of_lt' (hsmall a ha),
    UInt64.toNat_ofNat_of_lt' (hsmall b hb)]

/-- A scan that starts further on has at most one partition less. -/
theorem length_everyNth_le {i j : Nat} (hj : j < k) :
    (everyNth n.toNat k i).length ≤ (everyNth n.toNat k j).length + 1 := by
  have hk : 0 < k := Nat.zero_lt_of_lt hj
  simp only [everyNth, List.length_map, List.length_range']
  rw [← Nat.add_div_right _ hk]
  exact Nat.div_le_div_right (by omega)

theorem sharedOut_strides (hk : 0 < k) : SharedOut n k (strides n k) where
  count := by rw [strides, List.length_map, List.length_range]
  once := nodup_flatten_strides hk
  all := mem_flatten_strides hk
  ascending := by
    intro part hpart
    obtain ⟨i, hi, rfl⟩ := List.mem_map.mp hpart
    exact ascending_everyNth (List.mem_range.mp hi)
  even := by
    intro part hpart other hother
    obtain ⟨i, _, rfl⟩ := List.mem_map.mp hpart
    obtain ⟨j, hj, rfl⟩ := List.mem_map.mp hother
    exact length_everyNth_le (List.mem_range.mp hj)

end Strides

theorem scanWidth_toNat (scan : TableScan) (p : UInt64) :
    (scanWidth scan p).toNat = min p.toNat (max scan.partitions.toNat 1) := by
  have hone : (1 : UInt64).toNat = 1 := rfl
  simp only [scanWidth, show ∀ a b : UInt64, min a b = if a ≤ b then a else b from fun _ _ => rfl,
    show ∀ a b : UInt64, max a b = if a ≤ b then b else a from fun _ _ => rfl, UInt64.le_iff_toNat_le]
  split <;> split <;> simp only [hone] at * <;> omega

/-! ## The scans of a graph -/

theorem scansOf_stageNodes {locations : List Location} {targets : Targets} {inputs : Nat → List Location}
    {operator : Nat → Operator} (h : ∀ i, (operator i).type ≠ .scan) :
    scansOf (stageNodes locations targets inputs operator) = [] := by
  refine List.filterMap_eq_nil_iff.mpr fun n hn => ?_
  obtain ⟨i, l, _, rfl⟩ := mem_stageNodes.mp hn
  have hi := h i
  revert hi
  cases hop : operator i <;> simp [layerNode, OperatorNode.scan?, hop, Operator.type]

theorem scansOf_scanNodes (scan : TableScan) (layer : List Location) (targets : Targets) :
    scansOf (scanNodes scan layer targets) = (strides scan.partitions layer.length).map scan.part := by
  rw [scanNodes, stageNodes, scansOf, List.filterMap_map, strides, List.map_map]
  have hnumbers : (layer.zipIdx.map Prod.snd) = List.range layer.length := by
    rw [List.zipIdx_map_snd, List.range_eq_range']
  rw [← hnumbers, List.map_map, ← List.filterMap_eq_map]
  rfl

/-- A builder whose nodes hold these scans and no others. -/
def ScansAs (parts : List PartitionScan) (below : Below) : Prop :=
  ∀ targets pool a, below targets pool = .ok a → scansOf a.nodes = parts

section Builders

variable {parts : List PartitionScan} {below : Below} {operator : Operator}

theorem scansAs_paired (h : ScansAs parts below) (width : UInt64) (hop : operator.type ≠ .scan) :
    ScansAs parts (pairedStage width operator below) := by
  intro targets pool a hok
  obtain ⟨layer, rest, b, _, _, hb, rfl⟩ := pairedStage_ok hok
  rw [scansOf_append, h _ _ _ hb, scansOf_stageNodes fun _ => hop, List.append_nil]

theorem scansAs_single (h : ScansAs parts below) (hop : operator.type ≠ .scan) :
    ScansAs parts (singleStage operator below) := by
  intro targets pool a hok
  obtain ⟨top, rest, b, _, hb, rfl⟩ := singleStage_ok hok
  rw [scansOf_append, h _ _ _ hb, scansOf_stageNodes fun _ => hop, List.append_nil]

theorem scansAs_worker (h : ScansAs parts below) (p : UInt64) (partitioning : Partitioning)
    {worker : Nat → Operator} (hworker : ∀ i, (worker i).type ≠ .scan) (hop : operator.type ≠ .scan) :
    ScansAs parts (workerStage p partitioning worker operator below) := by
  intro targets pool a hok
  obtain ⟨top, workers, left, b, _, _, hb, rfl⟩ := workerStage_ok hok
  rw [scansOf_append, scansOf_append, h _ _ _ hb, scansOf_stageNodes hworker,
    scansOf_stageNodes fun _ => hop, List.append_nil, List.append_nil]

end Builders

/-- The scans are those of the stage at the bottom, whatever stands above it. -/
theorem scansAs_assemble (scan : TableScan) (p : UInt64) (stages : List Stage) :
    ScansAs ((strides scan.partitions (scanWidth scan p).toNat).map scan.part) (assemble scan p stages) := by
  induction stages with
  | nil =>
    intro targets pool a hok
    obtain ⟨layer, rest, _, hlength, rfl⟩ := assemble_nil_ok hok
    rw [scansOf_scanNodes, hlength]
  | cons stage below ih =>
    cases stage with
    | filter | project => exact scansAs_paired ih _ (by simp [Operator.type])
    | group | sort => exact scansAs_worker ih _ _ (by simp [Operator.type]) (by simp [Operator.type])
    | limit => exact scansAs_single ih (by simp [Operator.type])

theorem scansOf_assembleRoot {plan : Plan} {p : UInt64} {pool : List Location} {a : Assembly}
    (h : plan.assembleRoot p pool = .ok a) :
    scansOf a.nodes = (strides plan.scan.partitions (scanWidth plan.scan p).toNat).map plan.scan.part := by
  rcases assembleRoot_cases h with ⟨root, rest, b, _, hb, rfl⟩ | ⟨_, h⟩
  · rw [scansOf_append, scansAs_assemble _ _ _ _ _ _ hb,
      scansOf_stageNodes fun _ => by simp [Operator.type], List.append_nil]
  · exact scansAs_assemble _ _ _ _ _ _ h

/-- Binding succeeds if there are executors enough. Whenever it succeeds, the scans that it adds share out
the partitions of the table. -/
theorem partitions_read_once (plan : Plan) {p : UInt64} (hp : p ≠ 0) (prior : List OperatorNode)
    (free : List Location) :
    (plan.demand p < 2 ^ 64 → plan.demand p ≤ free.length →
      ∃ root, (plan.bindOnto p prior free).1 = .ok root) ∧
    ∀ root, (plan.bindOnto p prior free).1 = .ok root →
      ∃ added parts, (plan.bindOnto p prior free).2.1 = prior ++ added ∧
        scansOf added = parts.map plan.scan.part ∧
        SharedOut plan.scan.partitions (min p.toNat (max plan.scan.partitions.toNat 1)) parts := by
  constructor
  · intro hfits henough
    obtain ⟨root, _, hbind, _⟩ := bindOnto_seated hp hfits henough prior
    exact ⟨root, by rw [hbind]⟩
  · intro root hroot
    obtain ⟨_, a, _, _, _, hbuilt, hnodes, _⟩ := bindOnto_ok (Prod.ext hroot rfl)
    refine ⟨a.nodes, _, hnodes, scansOf_assembleRoot hbuilt, ?_⟩
    rw [← scanWidth_toNat]
    exact sharedOut_strides (scanWidth_pos hp)

section Spread

/-! The first rows of a sorted table, read by three scans if there are partitions enough. -/

def spreadPlan (partitions : UInt64) : Plan where
  stages := [.limit 2, .sort []]
  scan :=
    { catalog := "c", schema := "s", table := "t", columns := { columns := [⟨"a", .int64⟩] }, partitions,
      filters := [] }

def spreadHosts : List Location :=
  ["a", "b", "c", "d", "e", "f", "g", "h"].map fun name => ⟨name, "host", 1⟩

/-- The partitions of each scan at parallelism three. -/
def spread (partitions : UInt64) : List (List UInt64) :=
  (scansOf ((spreadPlan partitions).bindOnto 3 [] spreadHosts).2.1).map (·.partitions)

theorem partitions_read_once_spread :
    SharedOut 5 3 (spread 5) ∧ spread 5 = [[0, 3], [1, 4], [2]] ∧
      SharedOut 2 2 (spread 2) ∧ spread 2 = [[0], [1]] ∧
      SharedOut 0 1 (spread 0) ∧ spread 0 = [[]] := by
  have hspread : ∀ n, (spreadPlan n).demand 3 < 2 ^ 64 → (spreadPlan n).demand 3 ≤ spreadHosts.length →
      SharedOut n (min 3 (max n.toNat 1)) (spread n) := by
    intro n hfits henough
    obtain ⟨hroot, hscans⟩ := partitions_read_once (spreadPlan n) (by decide : (3 : UInt64) ≠ 0) [] spreadHosts
    obtain ⟨root, hroot⟩ := hroot hfits henough
    obtain ⟨added, parts, hadded, hparts, hshared⟩ := hscans root hroot
    have hsame : spread n = parts := by
      rw [spread, hadded, List.nil_append, hparts, List.map_map]
      exact List.map_id' parts
    exact hsame ▸ hshared
  exact ⟨hspread 5 (by decide) (by decide), rfl, hspread 2 (by decide) (by decide), rfl,
    hspread 0 (by decide) (by decide), rfl⟩

end Spread

end Plan
end QueryCluster
