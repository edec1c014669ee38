import QueryCluster.Proofs.Graph.Delivery
import QueryCluster.Proofs.Operator.GroupRun
import QueryCluster.Proofs.Operator.LocalSort
import QueryCluster.Proofs.Operator.Merge
import QueryCluster.Proofs.Operator.Scanning

/-!
# What layers make of rows

A layer whose nodes end well makes of all rows that reach it what one node would make of them:
for operators that treat rows apart, for groupings of hashed rows and for sorts with their merge.
-/
namespace QueryCluster

open Plan (layerNode stageNodes)

section Layers

variable {w : Workplace} {arrivals : OperatorNode → List Nat} {p : Progress} {targets : Targets}
  {layer : List Location} {inputs : Nat → List Location} {operator : Nat → Operator}
  {schema output : Schema} {rows : List Row} {got : Nat → List Row}

/-- Node `i` of a layer, at its location. -/
def nodeOf (targets : Targets) (layer : List Location) (inputs : Nat → List Location)
    (operator : Nat → Operator) (i : Nat) : OperatorNode :=
  layerNode targets inputs operator (layer[i]?.getD default) i

theorem nodeOf_eq {i : Nat} {l : Location} (hl : layer[i]? = some l) :
    nodeOf targets layer inputs operator i = layerNode targets inputs operator l i := by
  rw [nodeOf, hl, Option.getD_some]

theorem stageNodes_eq (layer : List Location) (targets : Targets) (inputs : Nat → List Location)
    (operator : Nat → Operator) :
    stageNodes layer targets inputs operator =
      (List.range layer.length).map (nodeOf targets layer inputs operator) := by
  refine List.ext_getElem? fun i => ?_
  rw [stageNodes, List.getElem?_map, List.getElem?_map, List.getElem?_zipIdx]
  by_cases hi : i < layer.length
  · rw [List.getElem?_range hi, Option.map_some, nodeOf_eq (List.getElem?_eq_getElem hi),
      List.getElem?_eq_getElem hi, Nat.zero_add]
    rfl
  · rw [List.getElem?_eq_none (by omega), List.getElem?_eq_none (by simpa using hi)]
    rfl

/-- A layer whose nodes have written what makes up some rows. -/
theorem gathered_of_gives {share : Nat → List Row}
    (hx : ∀ n ∈ stageNodes layer targets inputs operator, n.Executed w arrivals p)
    (hgives : ∀ (i : Nat) (l : Location), layer[i]? = some l →
      ((layerNode targets inputs operator l i).emissionIn w arrivals p).Gives schema (share i))
    (hrows : rows.Perm ((List.range layer.length).flatMap share)) :
    Gathered w arrivals p targets layer schema rows (nodeOf targets layer inputs operator) share where
  executed i hi := by
    refine hx _ ?_
    rw [stageNodes_eq]
    exact List.mem_map_of_mem (List.mem_range.mpr hi)
  location i hi := by
    rw [nodeOf_eq (List.getElem?_eq_getElem hi)]
    exact List.getElem?_eq_getElem hi
  outputs _ _ := rfl
  partitioning _ _ := rfl
  gives i hi := by
    rw [nodeOf_eq (List.getElem?_eq_getElem hi)]
    exact hgives i _ (List.getElem?_eq_getElem hi)
  rows := hrows

/-- Node `i` of a layer ends well. -/
theorem layer_outcome (hx : ∀ n ∈ stageNodes layer targets inputs operator, n.Executed w arrivals p)
    {i : Nat} {l : Location} (hl : layer[i]? = some l) :
    ∃ stats, ((layerNode targets inputs operator l i).emissionIn w arrivals p).outcome = .ok stats :=
  (hx _ (Plan.mem_stageNodes.mpr ⟨i, l, hl, rfl⟩)).outcome

/-- A layer whose nodes treat rows apart. -/
theorem Rowwise.gathered {f : List Row → Except OperatorError (List Row)} (hf : Rowwise f)
    (hd : Dealt p layer inputs schema rows got)
    (hx : ∀ n ∈ stageNodes layer targets inputs operator, n.Executed w arrivals p)
    (process : Schema → Except OperatorError (Process Unit))
    (hoperator : ∀ i arrival feeds, (operator i).run w arrival feeds =
      Process.runOn process (Feed.gather arrival feeds))
    (hp : ∀ p, process schema = .ok p → Treats schema output f p) :
    ∃ all share, f rows = .ok all ∧
      Gathered w arrivals p targets layer output all (nodeOf targets layer inputs operator) share := by
  have hruns : ∀ i < layer.length, ∃ out, f (got i) = .ok out ∧ ∀ l, layer[i]? = some l →
      ((layerNode targets inputs operator l i).emissionIn w arrivals p).Gives output out := by
    intro i hi
    have hl : layer[i]? = some layer[i] := List.getElem?_eq_getElem hi
    obtain ⟨stats, hstats⟩ := layer_outcome hx hl
    have hemission : (layerNode targets inputs operator layer[i] i).emissionIn w arrivals p =
        Process.runOn process (Feed.gather (arrivals (layerNode targets inputs operator layer[i] i))
          (feedsAt p (inputs i) layer[i])) := hoperator i _ _
    rw [hemission] at hstats
    obtain ⟨out, hout, hgives⟩ := hf.run_ok hp (hd.served i _ hl).under hstats
    rw [hd.reads i _ hl] at hout
    refine ⟨out, hout, fun l hl' => ?_⟩
    obtain rfl : layer[i] = l := Option.some.inj (hl.symm.trans hl')
    rw [hemission]
    exact hgives
  choose! share hshare using hruns
  obtain ⟨all, hall, hperm⟩ := hf.workers hd.rows fun i hi => (hshare i hi).1
  exact ⟨all, share, hall, gathered_of_gives hx
    (fun i l hl => (hshare i (List.getElem?_eq_some_iff.mp hl).1).2 l hl) hperm.symm⟩

/-- A node that gathers what a layer sends to it. -/
theorem union_layer (hd : Dealt p layer inputs schema rows got)
    (hx : ∀ n ∈ stageNodes layer targets inputs (fun _ => .union), n.Executed w arrivals p) :
    ∃ share, Gathered w arrivals p targets layer schema rows
      (nodeOf targets layer inputs fun _ => .union) share := by
  obtain ⟨all, share, hall, hg⟩ := rowwise_same.gathered hd hx unionProcess (fun _ _ _ => rfl)
    fun _ => unionProcess_treats
  cases hall
  exact ⟨share, hg⟩

end Layers

section Groups

variable {w : Workplace} {arrivals : OperatorNode → List Nat} {p : Progress} {targets : Targets}
  {tops layer : List Location} {schema : Schema} {rows : List Row} {node : Nat → OperatorNode}
  {share : Nat → List Row} {keys : List String} {aggregates : List Aggregate}

/-- Routers and groupings find the same key columns. -/
theorem keyColumns_eq {keyColumns routed : List Nat}
    (hr : Router.columnsOf (.hash keys) schema = .ok routed)
    (hk : keys.mapM (Grouping.keyColumn schema) = .ok keyColumns) : routed = keyColumns := by
  have hsame : ∀ k c c', Router.keyColumn schema k = .ok c → Grouping.keyColumn schema k = .ok c' →
      c = c' := by
    intro k c c' hc hc'
    have hindex := keyColumn_ok hc'
    rw [Router.keyColumn, hindex] at hc
    exact (Except.ok.inj hc).symm
  have hboth := forall₂_of_common (mapM_ok hr) (mapM_ok hk)
  refine List.forall₂_eq_eq_eq ▸ hboth.imp fun c c' h => ?_
  obtain ⟨k, _, hc, hc'⟩ := h
  exact hsame k c c' hc hc'

/-- Hashed rows reach the node that their keys name. -/
theorem Gathered.hashed
    (hg : Gathered w arrivals p (.fanOut layer (.hash keys)) tops schema rows node share)
    (hc : schema.Counts) {keyColumns : List Nat}
    (hk : keys.mapM (Grouping.keyColumn schema) = .ok keyColumns) {j : Nat} (hj : j < layer.length)
    {r : Row} (hr : r ∈ (List.range tops.length).flatMap fun i =>
      rowsOf (sentTo w arrivals p (node i) j)) :
    bucketOf (groupKey keyColumns r) layer.length = j := by
  by_cases hone : layer.length ≤ 1
  · rw [bucketOf, if_pos hone]
    omega
  have hpart : (Targets.fanOut layer (.hash keys)).partitioning = .hash keys := by
    match layer, hone with
    | _ :: _ :: _, _ => rfl
    | [], h => exact absurd (Nat.zero_le 1) h
    | [_], h => exact absurd (Nat.le_refl 1) h
  obtain ⟨i, hi, hr⟩ := List.mem_flatMap.mp hr
  have hi := List.mem_range.mp hi
  have hl : ((Targets.fanOut layer (.hash keys)).outputs i)[j]? = some layer[j] :=
    List.getElem?_eq_getElem hj
  obtain ⟨_, _, _, routed, hrouted⟩ := hg.feed hc hi hl
  rw [hpart] at hrouted
  rw [sentTo, hg.partitioning i hi, hpart, hg.outputs i hi] at hr
  have hbucket := Emission.hashPartition_of_mem_batchesTo (hg.gives i hi).schema_eq hrouted hr
  rw [keyColumns_eq hrouted hk] at hbucket
  exact hbucket

/-- Worker `i` of a grouping. -/
def groupWorker (keys : List String) (aggregates : List Aggregate) (q : UInt64) (i : Nat) :
    Operator :=
  .group keys aggregates (Plan.groupOwner keys q == some i)

/-- Without keys the only group belongs to the worker that rows without keys reach. -/
theorem groupOwner_eq {q : UInt64} {n : Nat} (hq : q.toNat = n) {keyColumns : List Nat}
    (hk : keys.mapM (Grouping.keyColumn schema) = .ok keyColumns) (hnil : keyColumns = []) (i : Nat) :
    (Plan.groupOwner keys q == some i) = (bucketOf [] n == i) := by
  have hlength := (mapM_ok hk).length_eq
  rw [hnil] at hlength
  rw [Plan.groupOwner, List.length_eq_zero_iff.mp hlength, hq]
  rfl

/-- The rows that have been dealt out can be grouped. -/
theorem Dealt.groupable {got : Nat → List Row} {slots : List AggregateSlot} {keyColumns : List Nat}
    (hd : Dealt p layer (fun _ => tops) schema rows got) (hg : Groupable schema.columns keyColumns slots)
    (htyped : ∀ r ∈ rows, r.Typed schema.columns) :
    ∀ r ∈ rows, r.Groupable schema.columns keyColumns := by
  intro r hr
  refine ⟨htyped r hr, fun c hc => ?_⟩
  obtain ⟨j, hj, hr⟩ := List.mem_flatMap.mp (hd.rows.mem_iff.mp hr)
  have hl := List.getElem?_eq_getElem (List.mem_range.mp hj)
  obtain ⟨f, hf, _⟩ := hg.keys c hc
  refine (hd.served j _ hl).short r ?_ c (List.getElem?_eq_some_iff.mp hf).1
  rw [hd.reads j _ hl]
  exact hr

/-- Workers that group what is dealt to them agree on the columns, and each writes the groups of its
rows. -/
theorem group_shares {q : UInt64} {got : Nat → List Row} (hn : 0 < layer.length)
    (hd : Dealt p layer (fun _ => tops) schema rows got) (hexact : ExactGroup schema keys aggregates)
    (htyped : ∀ r ∈ rows, r.Typed schema.columns)
    (hx : ∀ n ∈ stageNodes layer targets (fun _ => tops) (groupWorker keys aggregates q),
      n.Executed w arrivals p) :
    ∃ keyColumns slots ks as, keys.mapM (Grouping.keyColumn schema) = .ok keyColumns ∧
      aggregates.mapM (Aggregate.slot schema) = .ok slots ∧
      GroupColumns schema keys aggregates ks as ∧
      ∀ j < layer.length, ∃ mine out, mine.Perm (got j) ∧
        Wrote keyColumns slots (Plan.groupOwner keys q == some j) mine out ∧
        (∀ r ∈ out, r.Typed (ks ++ as)) ∧ ∀ l, layer[j]? = some l →
          ((layerNode targets (fun _ => tops) (groupWorker keys aggregates q) l j).emissionIn w
            arrivals p).Gives { columns := ks ++ as } out := by
  have hruns : ∀ (j : Nat) (l : Location), layer[j]? = some l → ∃ keyColumns slots ks as,
      keys.mapM (Grouping.keyColumn schema) = .ok keyColumns ∧
      aggregates.mapM (Aggregate.slot schema) = .ok slots ∧
      GroupColumns schema keys aggregates ks as ∧ ∃ mine out, mine.Perm (got j) ∧
        Wrote keyColumns slots (Plan.groupOwner keys q == some j) mine out ∧
        (∀ r ∈ out, r.Typed (ks ++ as)) ∧ ((layerNode targets (fun _ => tops)
          (groupWorker keys aggregates q) l j).emissionIn w arrivals p).Gives
            { columns := ks ++ as } out := by
    intro j l hl
    obtain ⟨stats, hstats⟩ := layer_outcome hx hl
    have hread := hd.reads j l hl
    have hj := List.mem_range.mpr (List.getElem?_eq_some_iff.mp hl).1
    have hrun := group_run_ok hexact (hd.served j l hl).under
      (fun r hr => htyped r (hd.rows.mem_iff.mpr (List.mem_flatMap.mpr ⟨j, hj, hread ▸ hr⟩))) hstats
    rw [hread] at hrun
    exact hrun
  obtain ⟨keyColumns, slots, ks, as, hk, hs, hcolumns, _⟩ :=
    hruns 0 layer[0] (List.getElem?_eq_getElem hn)
  refine ⟨keyColumns, slots, ks, as, hk, hs, hcolumns, fun j hj => ?_⟩
  obtain ⟨keyColumns', slots', ks', as', hk', hs', hcolumns', mine, out, hmine, hwrote, hout, hgives⟩ :=
    hruns j layer[j] (List.getElem?_eq_getElem hj)
  obtain rfl : keyColumns' = keyColumns := Except.ok.inj (hk'.symm.trans hk)
  obtain rfl : slots' = slots := Except.ok.inj (hs'.symm.trans hs)
  obtain ⟨rfl, rfl⟩ := hcolumns'.unique hcolumns
  refine ⟨mine, out, hmine, hwrote, hout, fun l hl => ?_⟩
  obtain rfl : layer[j] = l := Option.some.inj ((List.getElem?_eq_getElem hj).symm.trans hl)
  exact hgives

/-- Workers that group hashed rows write the groups of all rows. -/
theorem group_layer {q : UInt64} (hq : q.toNat = layer.length) (hn : 0 < layer.length)
    (hg : Gathered w arrivals p (.fanOut layer (.hash keys)) tops schema rows node share)
    (hc : schema.Counts) (hkeys : schema.keys = []) (hexact : ExactGroup schema keys aggregates)
    (htyped : ∀ r ∈ rows, r.Typed schema.columns)
    (hx : ∀ n ∈ stageNodes layer targets (fun _ => tops) (groupWorker keys aggregates q),
      n.Executed w arrivals p) :
    ∃ keyColumns slots ks as all written, keys.mapM (Grouping.keyColumn schema) = .ok keyColumns ∧
      aggregates.mapM (Aggregate.slot schema) = .ok slots ∧
      GroupColumns schema keys aggregates ks as ∧
      (groupsOf keyColumns rows).mapM (groupRow keyColumns slots) = .ok all ∧
      (∀ r ∈ all, r.Typed (ks ++ as)) ∧
      Gathered w arrivals p targets layer { columns := ks ++ as } all
        (nodeOf targets layer (fun _ => tops) (groupWorker keys aggregates q)) written := by
  have hd := hg.fanOut hc (fun _ _ => hkeys) hn
  obtain ⟨keyColumns, slots, ks, as, hk, hs, hcolumns, hshares⟩ := group_shares hn hd hexact htyped hx
  choose! mine out hmine hwrote hout hgives using hshares
  have hgroupable := (groupable_of_exact hexact hk hs).1
  have hrows : rows.Perm ((List.range layer.length).flatMap mine) :=
    hd.rows.trans (List.Perm.flatMap_left _ fun j hj => (hmine j (List.mem_range.mp hj)).symm)
  obtain ⟨all, hall, hperm⟩ := workers_mean hn hgroupable (hd.groupable hgroupable htyped) hrows
    (fun j hj r hr => hg.hashed hc hk hj ((hmine j hj).mem_iff.mp hr)) (groupOwner_eq hq hk) hwrote
  refine ⟨keyColumns, slots, ks, as, all, out, hk, hs, hcolumns, hall, fun r hr => ?_,
    gathered_of_gives hx (fun j l hl => hgives j (List.getElem?_eq_some_iff.mp hl).1 l hl) hperm.symm⟩
  obtain ⟨j, hj, hr⟩ := List.mem_flatMap.mp (hperm.mem_iff.mpr hr)
  exact hout j (List.mem_range.mp hj) r hr

end Groups

section Scans

variable {w : Workplace} {arrivals : OperatorNode → List Nat} {p : Progress} {targets : Targets}
  {layer : List Location} {scan : TableScan}

/-- Scan `i` of so many. -/
def scanWorker (scan : TableScan) (n i : Nat) : Operator :=
  .scan (scan.part (Plan.everyNth scan.partitions.toNat n i))

/-- Scans give the rows of the table that pass the filters. -/
theorem scan_layer (hn : 0 < layer.length) (ht : scan.Stored w.tables)
    (hx : ∀ n ∈ stageNodes layer targets (fun _ => []) (scanWorker scan layer.length),
      n.Executed w arrivals p) :
    ∃ all share, scan.meaning w.tables = .ok all ∧ (∀ r ∈ all, r.Typed scan.columns.columns) ∧
      Gathered w arrivals p targets layer scan.columns.withoutKeys all
        (nodeOf targets layer (fun _ => []) (scanWorker scan layer.length)) share := by
  have hruns : ∀ i < layer.length, ∃ reads out,
      (Plan.everyNth scan.partitions.toNat layer.length i).mapM
        (fun q => w.tables.read scan.name q.toNat scan.columns.withoutKeys) = .ok reads ∧
      scan.keep (rowsOf reads.flatten) = .ok out ∧ (∀ r ∈ out, r.Typed scan.columns.columns) ∧
      ∀ l, layer[i]? = some l → ((layerNode targets (fun _ => []) (scanWorker scan layer.length)
        l i).emissionIn w arrivals p).Gives scan.columns.withoutKeys out := by
    intro i hi
    have hl : layer[i]? = some layer[i] := List.getElem?_eq_getElem hi
    obtain ⟨stats, hstats⟩ := layer_outcome hx hl
    obtain ⟨reads, out, hreads, hout, htyped, hgives⟩ := runScan_ok ht hstats
    refine ⟨reads, out, hreads, hout, htyped, fun l hl' => ?_⟩
    obtain rfl : layer[i] = l := Option.some.inj (hl.symm.trans hl')
    exact hgives
  choose! reads out hreads hout htyped hgives using hruns
  obtain ⟨all, hall, hperm⟩ := scans_mean hn hreads hout
  refine ⟨all, out, hall, fun r hr => ?_, gathered_of_gives hx
    (fun i l hl => hgives i (List.getElem?_eq_some_iff.mp hl).1 l hl) hperm.symm⟩
  obtain ⟨i, hi, hr⟩ := List.mem_flatMap.mp (hperm.mem_iff.mpr hr)
  exact htyped i (List.mem_range.mp hi) r hr

end Scans

section Sorts

variable {w : Workplace} {arrivals : OperatorNode → List Nat} {p : Progress} {targets : Targets}
  {tops layer : List Location} {top : Location} {schema : Schema} {rows : List Row}
  {node : Nat → OperatorNode} {share : Nat → List Row} {items : List SortItem}

/-- Sorters write the keyed rows of all rows. -/
theorem sorter_layer (hn : 0 < layer.length)
    (hg : Gathered w arrivals p (.fanOut layer .roundRobin) tops schema rows node share)
    (hc : schema.Counts)
    (hx : ∀ n ∈ stageNodes layer targets (fun _ => tops) (fun _ => .localSort items),
      n.Executed w arrivals p) :
    ∃ output keyed sorted, keySchema schema items = .ok output ∧
      (keyed.map Row.withoutKeys).Perm (rows.map Row.withoutKeys) ∧
      Gathered w arrivals p targets layer output keyed
        (nodeOf targets layer (fun _ => tops) fun _ => .localSort items) sorted := by
  have hd := hg.fanOut hc (fun _ h => by cases h) hn
  have hruns : ∀ j < layer.length, ∃ output mine keyed, keySchema schema items = .ok output ∧
      mine.Perm ((List.range tops.length).flatMap fun i => rowsOf (sentTo w arrivals p (node i) j)) ∧
      Keyed schema items mine keyed ∧ ∀ l, layer[j]? = some l →
        ((layerNode targets (fun _ => tops) (fun _ => .localSort items) l j).emissionIn w arrivals
          p).Gives output keyed := by
    intro j hj
    have hl : layer[j]? = some layer[j] := List.getElem?_eq_getElem hj
    obtain ⟨stats, hstats⟩ := layer_outcome hx hl
    obtain ⟨output, houtput, hschema, hunder, mine, keyed, hmine, hkeyed, hrows, _⟩ :=
      localSort_run_ok (hd.served j _ hl).under hstats
    have hmine : mine.Perm (Feed.rows (feedsAt p tops layer[j])) := hmine
    rw [hd.reads j _ hl] at hmine
    refine ⟨output, mine, keyed, houtput, hmine, hkeyed, fun l hl' => ?_⟩
    obtain rfl : layer[j] = l := Option.some.inj (hl.symm.trans hl')
    exact ⟨hschema, hunder, hrows⟩
  choose! output mine keyed houtput hmine hkeyed hgives using hruns
  have hsame : ∀ j < layer.length, output j = output 0 := fun j hj =>
    Except.ok.inj ((houtput j hj).symm.trans (houtput 0 hn))
  refine ⟨output 0, (List.range layer.length).flatMap keyed, keyed, houtput 0 hn, ?_,
    gathered_of_gives hx (fun j l hl => ?_) (.refl _)⟩
  · have hmap : ((List.range layer.length).flatMap keyed).map Row.withoutKeys =
        ((List.range layer.length).flatMap mine).map Row.withoutKeys := by
      rw [List.map_flatMap, List.map_flatMap]
      exact List.flatMap_congr fun j hj => (hkeyed j (List.mem_range.mp hj)).withoutKeys
    rw [hmap]
    refine List.Perm.map _ (List.Perm.trans ?_ hd.rows.symm)
    exact List.Perm.flatMap_left _ fun j hj => hmine j (List.mem_range.mp hj)
  · have hj := (List.getElem?_eq_some_iff.mp hl).1
    exact hsame j hj ▸ hgives j hj l hl

/-- A merge writes the rows of its sorters without their keys. -/
theorem merge_layer (hn : 0 < layer.length)
    (hg : Gathered w arrivals p (.fanOut [top] .single) layer schema rows node share)
    (hc : schema.Counts)
    (hx : ∀ n ∈ stageNodes [top] targets (fun _ => layer) (fun _ => .merge items),
      n.Executed w arrivals p) :
    ∃ merged, Gathered w arrivals p targets [top] schema.withoutKeys (rows.map Row.withoutKeys)
      (nodeOf targets [top] (fun _ => layer) fun _ => .merge items) merged := by
  have hd := hg.fanOut hc (fun _ h => by cases h) (by simp)
  have hl : [top][0]? = some top := rfl
  have hroot : ∀ (j : Nat) (l : Location), [top][j]? = some l → j = 0 ∧ l = top := by
    intro j l hl
    obtain ⟨hj, hl⟩ := List.getElem?_eq_some_iff.mp hl
    obtain rfl : j = 0 := by simpa using hj
    exact ⟨rfl, hl.symm⟩
  obtain ⟨stats, hstats⟩ := layer_outcome hx hl
  obtain ⟨given, hinputs, hschema, hsplits, taken, htaken, hperm, _⟩ := runMerge_ok hstats
  have hgiven : given = schema := by
    have hmem : p.feed layer[0].name top.name ∈ feedsAt p layer top :=
      List.mem_map_of_mem (List.getElem_mem hn)
    exact ((hd.served 0 top hl).under _ hmem).schema_eq given (hinputs _ hmem).1.schema_eq
  rw [hgiven] at hschema hsplits
  have hrows : (rowsOf (runMerge items w.batchRows (feedsAt p layer top)).splits).Perm
      (rows.map Row.withoutKeys) := by
    have hread : taken.Perm (Feed.rows (feedsAt p layer top)) := hperm
    rw [hd.reads 0 top hl] at hread
    have hall := hd.rows
    rw [List.length_singleton, List.range_one, List.flatMap_singleton] at hall
    exact List.Perm.trans (List.Perm.of_eq htaken) ((hread.trans hall.symm).map _)
  refine ⟨fun _ => rows.map Row.withoutKeys, gathered_of_gives hx (fun j l hjl => ?_) ?_⟩
  · obtain ⟨rfl, rfl⟩ := hroot j l hjl
    exact ⟨hschema, hsplits, hrows⟩
  · rw [List.length_singleton, List.range_one, List.flatMap_singleton]

end Sorts

end QueryCluster
