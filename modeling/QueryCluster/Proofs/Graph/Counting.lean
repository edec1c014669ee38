import Mathlib.Algebra.Ring.Nat
import QueryCluster.Proofs.Graph.Assembly

/-!
# Counting and building agree

What a plan asks for, counted without a bound, is what building it takes from a pool: so many
executors from its front, the last stage before those below it. The count that the program makes is
that number as long as the number fits a word. What is taken is what the nodes stand on.
-/
namespace QueryCluster

section Sizes

variable {scan : TableScan} {q : UInt64}

theorem toNat_pos (hq : q ≠ 0) : 0 < q.toNat :=
  UInt64.lt_iff_toNat_lt.mp (UInt64.pos_iff_ne_zero.mpr hq)

theorem scanWidth_pos (hq : q ≠ 0) : 0 < (Plan.scanWidth scan q).toNat := by
  have hmax : 0 < (max scan.partitions 1).toNat := by
    rw [show (max scan.partitions 1) = if scan.partitions ≤ 1 then 1 else scan.partitions from rfl]
    split
    · decide
    · rename_i h
      have : ¬ scan.partitions.toNat ≤ 1 := h
      omega
  rw [Plan.scanWidth, show min q (max scan.partitions 1) =
    if q ≤ max scan.partitions 1 then q else max scan.partitions 1 from rfl]
  split
  · exact toNat_pos hq
  · exact hmax

theorem top_pos (hq : q ≠ 0) (stages : List Stage) :
    0 < (Plan.extentOf scan q stages).top.toNat := by
  induction stages with
  | nil => exact scanWidth_pos hq
  | cons stage below ih =>
    cases stage with
    | filter | project => exact ih
    | group | sort | limit => exact Nat.one_pos

end Sizes

namespace Plan

/-- Executors of a stage and all below it. -/
def demandOf (scan : TableScan) (p : UInt64) : List Stage → Nat
  | [] => (scanWidth scan p).toNat
  | .filter _ :: below | .project _ :: below =>
    demandOf scan p below + (extentOf scan p below).top.toNat
  | .group .. :: below | .sort .. :: below => demandOf scan p below + p.toNat + 1
  | .limit _ :: below => demandOf scan p below + 1

/-- Executors of a plan. -/
def demand (plan : Plan) (p : UInt64) : Nat :=
  demandOf plan.scan p plan.stages + if 1 < (plan.extent p).top then 1 else 0

/-- A stage is among all that is built up to it. -/
theorem top_le_demandOf (scan : TableScan) (p : UInt64) (stages : List Stage) :
    (extentOf scan p stages).top.toNat ≤ demandOf scan p stages := by
  cases stages with
  | nil => exact Nat.le_refl _
  | cons stage below =>
    have hone : (1 : UInt64).toNat = 1 := rfl
    cases stage <;> simp only [extentOf, demandOf] <;> omega

/-- A count that fits a word has not wrapped on its way. -/
theorem total_toNat {scan : TableScan} {p : UInt64} {stages : List Stage}
    (h : demandOf scan p stages < 2 ^ 64) :
    (extentOf scan p stages).total.toNat = demandOf scan p stages := by
  induction stages with
  | nil => rfl
  | cons stage below ih =>
    cases stage with
    | filter _ | project _ | group _ _ | sort _ | limit _ =>
      simp only [demandOf] at h
      have hbelow := ih (by omega)
      have hone : (1 : UInt64).toNat = 1 := rfl
      simp only [extentOf, demandOf, UInt64.toNat_add, hbelow, hone]
      omega

theorem executorCount_eq {plan : Plan} {p : UInt64} (hp : p ≠ 0) (h : plan.demand p < 2 ^ 64) :
    plan.executorCount p = .ok (.ofNat (plan.demand p)) := by
  have hone : (1 : UInt64).toNat = 1 := rfl
  rw [executorCount, if_neg hp]
  refine congrArg Except.ok (UInt64.toNat_inj.mp ?_)
  rw [UInt64.toNat_ofNat_of_lt' h]
  rw [demand] at h ⊢
  by_cases htop : 1 < (plan.extent p).top
  · rw [if_pos htop] at h
    rw [if_pos htop, if_pos htop, UInt64.toNat_add, extent, total_toNat (by omega), hone]
    omega
  · rw [if_neg htop] at h
    rw [if_neg htop, if_neg htop]
    exact total_toNat h

/-- A builder whose nodes stand on what it takes off a pool, even one that lists a location twice. -/
def Spends (below : Below) : Prop := ∀ targets pool a, below targets pool = .ok a →
  pool.Perm (placesOf a.nodes ++ a.pool)

/-- A layer put behind nodes stands on what was taken in front of theirs. -/
theorem perm_placesOf_layer (layer : List Location) {nodes : List OperatorNode}
    {pool left : List Location} {targets : Targets} {inputs : Nat → List Location}
    {operator : Nat → Operator} (h : pool.Perm (placesOf nodes ++ left)) :
    (layer ++ pool).Perm (placesOf (nodes ++ stageNodes layer targets inputs operator) ++ left) := by
  rw [placesOf_append, placesOf_stageNodes, List.append_assoc]
  exact (h.append_left layer).trans (List.perm_append_comm_assoc ..)

section Spending

variable {below : Below} {operator : Operator}

theorem spends_paired (h : Spends below) (width : UInt64) :
    Spends (pairedStage width operator below) := by
  intro targets pool a hok
  obtain ⟨layer, rest, b, rfl, _, hb, rfl⟩ := pairedStage_ok hok
  exact perm_placesOf_layer layer (h _ _ _ hb)

theorem spends_single (h : Spends below) : Spends (singleStage operator below) := by
  intro targets pool a hok
  obtain ⟨top, rest, b, rfl, hb, rfl⟩ := singleStage_ok hok
  exact perm_placesOf_layer [top] (h _ _ _ hb)

theorem spends_worker (h : Spends below) (p : UInt64) (partitioning : Partitioning)
    (worker : Nat → Operator) : Spends (workerStage p partitioning worker operator below) := by
  intro targets pool a hok
  obtain ⟨top, workers, left, b, rfl, _, hb, rfl⟩ := workerStage_ok hok
  exact perm_placesOf_layer [top] (perm_placesOf_layer workers (h _ _ _ hb))

theorem spends_assemble (scan : TableScan) (p : UInt64) (stages : List Stage) :
    Spends (assemble scan p stages) := by
  induction stages with
  | nil =>
    intro targets pool a hok
    obtain ⟨layer, rest, rfl, _, rfl⟩ := assemble_nil_ok hok
    simp only [scanNodes, placesOf_stageNodes]
    exact .refl _
  | cons stage below ih =>
    cases stage with
    | filter | project => exact spends_paired ih _
    | group | sort => exact spends_worker ih _ _ _
    | limit => exact spends_single ih

theorem assembleRoot_spends {plan : Plan} {p : UInt64} {pool : List Location} {a : Assembly}
    (h : plan.assembleRoot p pool = .ok a) : pool.Perm (placesOf a.nodes ++ a.pool) := by
  rcases assembleRoot_cases h with ⟨root, rest, b, rfl, hb, rfl⟩ | ⟨_, h⟩
  · exact perm_placesOf_layer [root] (spends_assemble _ _ _ _ _ _ hb)
  · exact spends_assemble _ _ _ _ _ _ h

/-- A graph runs on executors that were free. -/
theorem bind_places_free {plan : Plan} {p : UInt64} {free : List Location} {g : Graph}
    (h : (plan.bind p free).1 = .ok g) : ∀ l ∈ placesOf g.nodes, l ∈ free := by
  obtain ⟨needed, a, _, _, _, hroot, hg, _⟩ := bind_graph_ok h
  intro l hl
  exact List.mem_of_mem_take ((assembleRoot_spends hroot).mem_iff.mpr (List.mem_append_left _ (hg ▸ hl)))

end Spending

/-- A builder that takes so many executors off any pool that has them, its last stage first. -/
def Takes (below : Below) (count top : Nat) : Prop := ∀ targets pool, count ≤ pool.length →
  ∃ a, below targets pool = .ok a ∧ a.nodes.length = count ∧ a.tops = pool.take top ∧
    a.pool = pool.drop count

section Builders

variable {below : Below} {count top : Nat} {operator : Operator}

theorem takeLocations_eq {n : UInt64} {pool : List Location} (h : n.toNat ≤ pool.length) :
    takeLocations n pool = .ok (pool.take n.toNat, pool.drop n.toNat) := by
  rw [takeLocations, if_neg (by omega)]

@[simp] theorem length_stageNodes (locations : List Location) (targets : Targets)
    (inputs : Nat → List Location) (operator : Nat → Operator) :
    (stageNodes locations targets inputs operator).length = locations.length := by
  rw [stageNodes, List.length_map, List.length_zipIdx]

theorem takes_paired (h : Takes below count top) (width : UInt64) :
    Takes (pairedStage width operator below) (count + width.toNat) width.toNat := by
  intro targets pool hpool
  obtain ⟨a, ha, hnodes, _, hleft⟩ :=
    h (.paired (pool.take width.toNat)) (pool.drop width.toNat) (by rw [List.length_drop]; omega)
  rw [pairedStage, takeLocations_eq (by omega)]
  simp only [ok_bind, ha]
  refine ⟨_, rfl, ?_, rfl, ?_⟩
  · rw [List.length_append, hnodes, length_stageNodes, List.length_take_of_le (by omega)]
  · rw [hleft, List.drop_drop, Nat.add_comm]

theorem takes_single (h : Takes below count top) :
    Takes (singleStage operator below) (count + 1) 1 := by
  intro targets pool hpool
  cases pool with
  | nil => exact absurd hpool (Nat.not_succ_le_zero count)
  | cons l pool =>
    obtain ⟨a, ha, hnodes, _, hleft⟩ := h (.fanOut [l] .single) pool (Nat.le_of_succ_le_succ hpool)
    rw [singleStage, takeLocation]
    simp only [ok_bind, ha]
    refine ⟨_, rfl, ?_, rfl, hleft⟩
    rw [List.length_append, hnodes, length_stageNodes, List.length_singleton]

theorem takes_worker (h : Takes below count top) (p : UInt64) (partitioning : Partitioning)
    (worker : Nat → Operator) :
    Takes (workerStage p partitioning worker operator below) (count + p.toNat + 1) 1 := by
  intro targets pool hpool
  cases pool with
  | nil => exact absurd hpool (Nat.not_succ_le_zero _)
  | cons l pool =>
    have hpool : count + p.toNat ≤ pool.length := Nat.le_of_succ_le_succ hpool
    obtain ⟨a, ha, hnodes, _, hleft⟩ := h (.fanOut (pool.take p.toNat) partitioning)
      (pool.drop p.toNat) (by rw [List.length_drop]; omega)
    rw [workerStage, takeLocation]
    simp only [ok_bind, takeLocations_eq (show p.toNat ≤ pool.length by omega), ha]
    refine ⟨_, rfl, ?_, rfl, ?_⟩
    · rw [List.length_append, List.length_append, hnodes, length_stageNodes, length_stageNodes,
        List.length_take_of_le (by omega), List.length_singleton]
    · rw [hleft, List.drop_drop, Nat.add_comm p.toNat, List.drop_succ_cons]

end Builders

theorem takes_assemble (scan : TableScan) (p : UInt64) (stages : List Stage) :
    Takes (assemble scan p stages) (demandOf scan p stages) (extentOf scan p stages).top.toNat := by
  induction stages with
  | nil =>
    intro targets pool hpool
    simp only [assemble, takeLocations_eq hpool, ok_bind]
    refine ⟨_, rfl, ?_, rfl, rfl⟩
    rw [scanNodes, length_stageNodes]
    exact List.length_take_of_le hpool
  | cons stage below ih =>
    cases stage with
    | filter predicate => exact takes_paired ih _
    | project exprs => exact takes_paired ih _
    | group keys aggregates => exact takes_worker ih _ _ _
    | sort items => exact takes_worker ih _ _ _
    | limit count => exact takes_single ih

/-- A whole plan takes what it asks for and runs its root on the first executor of the pool. -/
theorem assembleRoot_takes {plan : Plan} {p : UInt64} {pool : List Location} (hp : p ≠ 0)
    (h : plan.demand p ≤ pool.length) :
    ∃ a, plan.assembleRoot p pool = .ok a ∧ a.nodes.length = plan.demand p ∧
      a.tops = pool.take 1 ∧ a.pool = pool.drop (plan.demand p) := by
  rw [demand] at h ⊢
  by_cases htop : 1 < (plan.extent p).top
  · rw [if_pos htop] at h ⊢
    rw [assembleRoot, if_pos htop]
    cases pool with
    | nil => exact absurd h (Nat.not_succ_le_zero _)
    | cons l pool =>
      obtain ⟨a, ha, hnodes, _, hleft⟩ := takes_assemble plan.scan p plan.stages
        (.paired (List.replicate (plan.extent p).top.toNat l)) pool (Nat.le_of_succ_le_succ h)
      rw [takeLocation]
      simp only [ok_bind, ha]
      refine ⟨_, rfl, ?_, rfl, hleft⟩
      rw [List.length_append, hnodes, length_stageNodes, List.length_singleton]
  · rw [if_neg htop] at h ⊢
    rw [assembleRoot, if_neg htop]
    obtain ⟨a, ha, hnodes, htops, hleft⟩ := takes_assemble plan.scan p plan.stages .root pool h
    have hone : (extentOf plan.scan p plan.stages).top.toNat = 1 := by
      have hpos : 0 < (extentOf plan.scan p plan.stages).top.toNat := top_pos hp plan.stages
      have hle : ¬ 1 < (extentOf plan.scan p plan.stages).top.toNat := htop
      omega
    exact ⟨a, ha, hnodes, hone ▸ htops, hleft⟩

theorem rootOf_eq {prior nodes : List OperatorNode} {l : Location} (h : l ∈ placesOf nodes) :
    ∃ root ∈ nodes, root.location = l ∧ rootOf (prior ++ nodes) [l] = .ok root := by
  obtain ⟨n, hn, hl⟩ := mem_placesOf.mp h
  obtain ⟨root, hfind⟩ : ∃ root, (nodes.reverse.find? fun n => n.location = l) = some root :=
    Option.isSome_iff_exists.mp
      (List.find?_isSome.mpr ⟨n, List.mem_reverse.mpr hn, decide_eq_true hl⟩)
  refine ⟨root, List.mem_reverse.mp (List.mem_of_find?_eq_some hfind),
    by simpa using List.find?_some hfind, ?_⟩
  rw [rootOf, List.reverse_append, List.find?_append, hfind]
  rfl

theorem demand_pos {plan : Plan} {p : UInt64} (hp : p ≠ 0) : 0 < plan.demand p := by
  have htop : 0 < (extentOf plan.scan p plan.stages).top.toNat := top_pos hp _
  have hle := top_le_demandOf plan.scan p plan.stages
  rw [demand]
  omega

/-- What comes of binding a plan that finds enough executors. The nodes are as many as were counted,
one on each executor that is taken off the front, and the root is on the first. -/
theorem bindOnto_seated {plan : Plan} {p : UInt64} {free : List Location} (hp : p ≠ 0)
    (hfits : plan.demand p < 2 ^ 64) (henough : plan.demand p ≤ free.length)
    (prior : List OperatorNode) :
    ∃ root a, plan.bindOnto p prior free =
        (.ok root, prior ++ a.nodes, free.drop (plan.demand p)) ∧
      plan.assembleRoot p (free.take (plan.demand p)) = .ok a ∧ a.nodes.length = plan.demand p ∧
      (placesOf a.nodes).Perm (free.take (plan.demand p)) ∧ root ∈ a.nodes ∧
      a.tops = [root.location] ∧ free.head? = some root.location := by
  have hneeded : (UInt64.ofNat (plan.demand p)).toNat = plan.demand p :=
    UInt64.toNat_ofNat_of_lt' hfits
  have htaken : (free.take (plan.demand p)).length = plan.demand p := List.length_take_of_le henough
  obtain ⟨a, ha, hnodes, htops, hleft⟩ := assembleRoot_takes hp (Nat.le_of_eq htaken.symm)
  have hplaces : (placesOf a.nodes).Perm (free.take (plan.demand p)) := by
    have hspent := assembleRoot_spends ha
    rw [hleft, List.drop_eq_nil_of_le (Nat.le_of_eq htaken), List.append_nil] at hspent
    exact hspent.symm
  have hpos : 0 < plan.demand p := demand_pos hp
  obtain ⟨l, rest, rfl⟩ : ∃ l rest, free = l :: rest :=
    List.exists_cons_of_length_pos (Nat.lt_of_lt_of_le hpos henough)
  obtain ⟨k, hk⟩ : ∃ k, plan.demand p = k + 1 := Nat.exists_eq_succ_of_ne_zero (Nat.pos_iff_ne_zero.mp hpos)
  have htops : a.tops = [l] := by
    rw [htops, hk]
    rfl
  have hl : l ∈ placesOf a.nodes := by
    rw [hplaces.mem_iff, hk]
    exact List.mem_cons_self
  obtain ⟨root, hroot, rfl, hfound⟩ := @rootOf_eq prior _ _ hl
  refine ⟨root, a, ?_, ha, hnodes, hplaces, hroot, htops, rfl⟩
  simp only [bindOnto, executorCount_eq hp hfits, hneeded, if_neg (Nat.not_lt.mpr henough), ha, htops,
    hfound]
  rfl

theorem bind_seated {plan : Plan} {p : UInt64} {free : List Location} (hp : p ≠ 0)
    (hfits : plan.demand p < 2 ^ 64) (henough : plan.demand p ≤ free.length) :
    ∃ g, (plan.bind p free).1 = .ok g ∧ g.nodes.length = plan.demand p ∧
      (placesOf g.nodes).Perm (free.take (plan.demand p)) ∧ g.root ∈ g.nodes ∧
      free.head? = some g.root.location := by
  obtain ⟨root, a, hbind, _, hlength, hplaces, hroot, _, hhead⟩ := bindOnto_seated hp hfits henough []
  rw [bind, hbind]
  exact ⟨⟨a.nodes, root⟩, rfl, hlength, hplaces, hroot, hhead⟩

/-- If no executor is listed twice, each node has one of its own, and the graph is complete. -/
theorem bindOnto_enough {plan : Plan} {p : UInt64} {free : List Location} (hp : p ≠ 0)
    (hfits : plan.demand p < 2 ^ 64) (hfree : free.Nodup) (henough : plan.demand p ≤ free.length)
    (prior : List OperatorNode) :
    ∃ root a, plan.bindOnto p prior free =
        (.ok root, prior ++ a.nodes, free.drop (plan.demand p)) ∧
      plan.assembleRoot p (free.take (plan.demand p)) = .ok a ∧
      Assembled .root (free.take (plan.demand p)) a ∧ a.nodes.length = plan.demand p ∧
      (placesOf a.nodes).Perm (free.take (plan.demand p)) ∧ root ∈ a.nodes ∧
      a.tops = [root.location] ∧ free.head? = some root.location := by
  obtain ⟨root, a, hbind, ha, hrest⟩ := bindOnto_seated hp hfits henough prior
  exact ⟨root, a, hbind, ha, assembleRoot_ok ((List.take_sublist _ free).nodup hfree) ha, hrest⟩

/-- Binding succeeds just when there are executors enough. Then it takes as many as were counted off
the front and puts one node on each; else it changes nothing, and it never runs out on its way. -/
theorem bindOnto_iff_enough (plan : Plan) (p : UInt64) (prior : List OperatorNode)
    {free : List Location} (hfits : plan.demand p < 2 ^ 64) (hfree : free.Nodup) :
    (p ≠ 0 → plan.executorCount p = .ok (.ofNat (plan.demand p))) ∧
      ((∃ root, (plan.bindOnto p prior free).1 = .ok root) ↔
        p ≠ 0 ∧ plan.demand p ≤ free.length) ∧
      (∀ root, (plan.bindOnto p prior free).1 = .ok root → ∃ added,
        (plan.bindOnto p prior free).2 = (prior ++ added, free.drop (plan.demand p)) ∧
          added.length = plan.demand p ∧ (placesOf added).Nodup ∧
          (placesOf added).Perm (free.take (plan.demand p)) ∧
          root ∈ added ∧ free.head? = some root.location) ∧
      ∀ e, (plan.bindOnto p prior free).1 = .error e →
        (plan.bindOnto p prior free).2 = (prior, free) ∧ e ≠ .invalid .outOfExecutors := by
  have hnone : p = 0 → plan.bindOnto p prior free =
      (.error (.invalid .noParallelism), prior, free) := by
    rintro rfl
    rfl
  have hfew : p ≠ 0 → free.length < plan.demand p → plan.bindOnto p prior free =
      (.error (.capacity (plan.demand p) free.length), prior, free) := by
    intro hp hlt
    have hneeded : (UInt64.ofNat (plan.demand p)).toNat = plan.demand p :=
      UInt64.toNat_ofNat_of_lt' hfits
    simp only [bindOnto, executorCount_eq hp hfits, hneeded, if_pos hlt]
  by_cases hp : p = 0
  · rw [hnone hp]
    refine ⟨fun h => absurd hp h, ⟨?_, fun h => absurd hp h.1⟩, fun _ h => (by cases h), fun e h => ?_⟩
    · rintro ⟨_, h⟩
      cases h
    · cases h
      exact ⟨rfl, by simp⟩
  refine ⟨fun _ => executorCount_eq hp hfits, ?_⟩
  by_cases hlt : free.length < plan.demand p
  · rw [hfew hp hlt]
    refine ⟨⟨?_, fun h => absurd hlt (Nat.not_lt.mpr h.2)⟩, fun _ h => (by cases h), fun e h => ?_⟩
    · rintro ⟨_, h⟩
      cases h
    · cases h
      exact ⟨rfl, by simp⟩
  · have henough := Nat.le_of_not_lt hlt
    obtain ⟨root, a, hbind, _, hbuilt, hlength, hplaces, hroot, _, hhead⟩ :=
      bindOnto_enough hp hfits hfree henough prior
    rw [hbind]
    refine ⟨⟨fun _ => ⟨hp, henough⟩, fun _ => ⟨root, rfl⟩⟩, fun r h => ?_,
      fun _ h => (by cases h)⟩
    cases h
    exact ⟨a.nodes, rfl, hlength, hplaces.nodup_iff.mpr ((List.take_sublist _ free).nodup hfree),
      hplaces, hroot, hhead⟩

section Trio

/-! A limit over two scans, put behind a node that is there already. -/

def trioPlan : Plan where
  stages := [.limit 1]
  scan :=
    { catalog := "c", schema := "s", table := "t", columns := { columns := [] }, partitions := 3,
      filters := [] }

def trioHosts : List Location := ["a", "b", "c", "d"].map fun name => ⟨name, "host", 1⟩

def trioPrior : List OperatorNode := [{ location := ⟨"a", "host", 1⟩, operator := .union }]

theorem bindOnto_iff_enough_trio : trioPlan.demand 2 = 3 ∧ trioHosts.Nodup ∧
    ∃ root added, trioPlan.bindOnto 2 trioPrior trioHosts =
        (.ok root, trioPrior ++ added, [⟨"d", "host", 1⟩]) ∧
      root.location = ⟨"a", "host", 1⟩ ∧ (placesOf added).Perm (trioHosts.take 3) := by
  have hdemand : trioPlan.demand 2 = 3 := rfl
  have hnodup : trioHosts.Nodup := by decide
  obtain ⟨_, hiff, htaken, _⟩ :=
    bindOnto_iff_enough trioPlan 2 trioPrior (show _ < 2 ^ 64 by rw [hdemand]; decide) hnodup
  obtain ⟨root, hroot⟩ := hiff.mpr ⟨by decide, by decide⟩
  obtain ⟨added, hadded, _, _, hplaces, _, hhead⟩ := htaken root hroot
  refine ⟨hdemand, hnodup, root, added, Prod.ext hroot (hadded.trans ?_), ?_, hdemand ▸ hplaces⟩
  · rw [hdemand]
    rfl
  · exact (Option.some.inj hhead).symm

end Trio

end Plan
end QueryCluster
