import QueryCluster.Proofs.Graph.Counting
import QueryCluster.Proofs.Graph.Layers

/-!
# Groups stay whole

A grouping runs on workers, and whoever writes to one of them writes to all. Writers hash the keys of
a row to choose its worker; a worker groups by the bytes of the same keys. So every row reaches one
worker and no group has rows at two, however rows come to the writers and in whatever order they
arrive. Without keys the worker that all rows reach is the one that writes a row for none.
-/
namespace QueryCluster

open Codec (lengthLimit)
open Plan (placesOf stageNodes layerNode assemble mem_stageNodes placesOf_stageNodes Assembled)
open StreamWriter (Fits payload stream)

/-- The workers of a grouping, and the nodes that deal their rows out to them. -/
structure GroupStage (q : UInt64) (nodes : List OperatorNode) (keys : List String)
    (aggregates : List Aggregate) (ups team : List OperatorNode) : Prop where
  nodes : ∀ n ∈ ups ++ team, n ∈ nodes
  size : team.length = q.toNat
  places : (placesOf team).Nodup
  sources : ups ≠ []
  workers : ∀ (j : Nat) (k : OperatorNode), team[j]? = some k →
    k.operator = groupWorker keys aggregates q j ∧ k.inputs = placesOf ups
  writers : ∀ u ∈ ups, u.outputs = placesOf team ∧
    u.partitioning = (Targets.fanOut u.outputs (.hash keys)).partitioning

/-- Every grouping node is a worker of a stage. -/
def Staged (q : UInt64) (nodes : List OperatorNode) : Prop :=
  ∀ m ∈ nodes, ∀ (keys : List String) (aggregates : List Aggregate) (emptyRow : Bool),
    m.operator = .group keys aggregates emptyRow →
      ∃ ups team, m ∈ team ∧ GroupStage q nodes keys aggregates ups team

section Building

variable {q : UInt64} {nodes more layer : List OperatorNode} {scan : TableScan}

theorem GroupStage.append {keys : List String} {aggregates : List Aggregate}
    {ups team : List OperatorNode} (h : GroupStage q nodes keys aggregates ups team) :
    GroupStage q (nodes ++ more) keys aggregates ups team :=
  { h with nodes := fun n hn => List.mem_append_left _ (h.nodes n hn) }

theorem Staged.append (h : Staged q nodes) (hmore : ∀ m ∈ more,
    ∀ (keys : List String) (aggregates : List Aggregate) (emptyRow : Bool),
      m.operator = .group keys aggregates emptyRow →
        ∃ ups team, m ∈ team ∧ GroupStage q (nodes ++ more) keys aggregates ups team) :
    Staged q (nodes ++ more) := by
  intro m hm keys aggregates emptyRow hop
  rcases List.mem_append.mp hm with hm | hm
  · obtain ⟨ups, team, hteam, hstage⟩ := h m hm keys aggregates emptyRow hop
    exact ⟨ups, team, hteam, hstage.append⟩
  · exact hmore m hm keys aggregates emptyRow hop

theorem Staged.append_layer (h : Staged q nodes) (locations : List Location) (targets : Targets)
    (inputs : Nat → List Location) {operator : Nat → Operator}
    (hop : ∀ i, (operator i).type ≠ .group) :
    Staged q (nodes ++ stageNodes locations targets inputs operator) := by
  refine h.append fun m hm keys aggregates emptyRow hgroup => ?_
  obtain ⟨i, l, _, rfl⟩ := mem_stageNodes.mp hm
  exact absurd (congrArg Operator.type hgroup) (hop i)

/-- A layer of workers behind what deals out to them. -/
theorem Staged.append_workers {keys : List String} {pool workers : List Location} {b : Assembly}
    (hb : Assembled (.fanOut workers (.hash keys)) pool b) (h : Staged q b.nodes) (hsize : workers.length = q.toNat) (hnodup : workers.Nodup)
    (hne : b.tops ≠ []) (aggregates : List Aggregate) (targets : Targets) :
    Staged q (b.nodes ++
      stageNodes workers targets (fun _ => b.tops) (groupWorker keys aggregates q)) := by
  refine h.append fun m hm keys' aggregates' emptyRow hgroup => ?_
  obtain ⟨i, l, hl, rfl⟩ := mem_stageNodes.mp hm
  cases hgroup
  obtain ⟨lower, inputs, operator, hshape⟩ := hb.shape
  refine ⟨stageNodes b.tops (.fanOut workers (.hash keys)) inputs operator, _, hm,
    ⟨fun n hn => ?_, ?_, ?_, ?_, fun j k hk => ?_, fun u hu => ?_⟩⟩
  · rw [hshape]
    rcases List.mem_append.mp hn with hn | hn
    · exact List.mem_append_left _ (List.mem_append_right _ hn)
    · exact List.mem_append_right _ hn
  · rw [Plan.length_stageNodes, hsize]
  · rw [placesOf_stageNodes]
    exact hnodup
  · rw [← List.length_pos_iff, Plan.length_stageNodes]
    exact List.length_pos_iff.mpr hne
  · rw [stageNodes, List.getElem?_map] at hk
    obtain ⟨⟨l', j'⟩, hpair, rfl⟩ := Option.map_eq_some_iff.mp hk
    obtain ⟨l'', _, heq⟩ := Option.map_eq_some_iff.mp ((List.getElem?_zipIdx ..).symm.trans hpair)
    obtain ⟨_, rfl⟩ := Prod.mk.inj heq
    rw [placesOf_stageNodes, Nat.zero_add]
    exact ⟨rfl, rfl⟩
  · obtain ⟨i, l, _, rfl⟩ := mem_stageNodes.mp hu
    rw [placesOf_stageNodes]
    exact ⟨rfl, rfl⟩

theorem staged_assemble (hq : q ≠ 0) (stages : List Stage) : ∀ (targets : Targets)
    (pool : List Location) (a : Assembly), pool.Nodup → assemble scan q stages targets pool = .ok a →
      Staged q a.nodes := by
  induction stages with
  | nil =>
    intro targets pool a _ hok
    obtain ⟨layer, rest, _, _, rfl⟩ := Plan.assemble_nil_ok hok
    intro m hm keys aggregates emptyRow hgroup
    have hm : m ∈ Plan.scanNodes scan layer targets := hm
    rw [Plan.scanNodes] at hm
    obtain ⟨i, l, _, rfl⟩ := mem_stageNodes.mp hm
    cases hgroup
  | cons stage below ih =>
    intro targets pool a hpool hok
    cases stage with
    | filter _ | project _ =>
      obtain ⟨layer, rest, b, rfl, _, hbelow, rfl⟩ := Plan.pairedStage_ok hok
      exact (ih _ _ _ (List.nodup_append.mp hpool).2.1 hbelow).append_layer _ _ _ fun _ h => by cases h
    | limit count =>
      obtain ⟨l, rest, b, rfl, hbelow, rfl⟩ := Plan.singleStage_ok hok
      exact (ih _ _ _ (List.nodup_cons.mp hpool).2 hbelow).append_layer _ _ _ fun _ h => by cases h
    | sort items =>
      obtain ⟨l, workers, left, b, rfl, _, hbelow, rfl⟩ := Plan.workerStage_ok hok
      have hleft := (List.nodup_append.mp (List.nodup_cons.mp hpool).2).2.1
      refine ((ih _ _ _ hleft hbelow).append_layer _ _ _ ?_).append_layer _ _ _ ?_
      · exact fun _ h => by cases h
      · exact fun _ h => by cases h
    | group keys aggregates =>
      obtain ⟨l, workers, left, b, rfl, hsize, hbelow, rfl⟩ := Plan.workerStage_ok hok
      have hrest := (List.nodup_cons.mp hpool).2
      have hleft := (List.nodup_append.mp hrest).2.1
      have hnodup := (List.nodup_append.mp hrest).1
      have hb := Plan.sound_assemble _ _ _ (.fanOut workers (.hash keys)) _ _ hleft
        (fun _ => hnodup) hbelow
      have htops : 0 < (Plan.extentOf scan q below).top.toNat := top_pos hq below
      have hne : b.tops ≠ [] := List.length_pos_iff.mp (Plan.length_tops hbelow ▸ htops)
      have hstaged :=
        (ih _ _ _ hleft hbelow).append_workers hb hsize hnodup hne aggregates (.fanOut [l] .single)
      refine hstaged.append_layer [l] targets (fun _ => workers) ?_
      exact fun _ h => by cases h

/-- Every grouping node of a bound plan is a worker of a stage. -/
theorem staged_bindOnto {plan : Plan} {prior nodes : List OperatorNode} {free left : List Location}
    {root : OperatorNode} (hfree : free.Nodup)
    (h : plan.bindOnto q prior free = (.ok root, nodes, left)) :
    ∃ added, nodes = prior ++ added ∧ Staged q added := by
  obtain ⟨needed, a, hcount, _, _, ha, rfl, _⟩ := Plan.bindOnto_ok h
  have hq : q ≠ 0 := by
    rintro rfl
    cases hcount
  have hpool : (free.take needed.toNat).Nodup := (List.take_sublist _ free).nodup hfree
  refine ⟨a.nodes, rfl, ?_⟩
  rcases Plan.assembleRoot_cases ha with ⟨l, rest, b, hsplit, hbelow, rfl⟩ | ⟨_, ha⟩
  · rw [hsplit] at hpool
    have hstaged := staged_assemble hq plan.stages _ _ _ (List.nodup_cons.mp hpool).2 hbelow
    refine hstaged.append_layer [l] .root (fun _ => b.tops) ?_
    exact fun _ h => by cases h
  · exact staged_assemble hq plan.stages _ _ _ hpool ha

end Building

/-! ## A run of a stage -/

/-- What a node leaves for one of its outputs when its operator came to an emission. -/
def OperatorNode.streamTo (n : OperatorNode) (w : Workplace) (e : Emission) (l : Location) : Bytes :=
  ((e.send (n.router w.batchRows n.outputs.length)).2.outputs[n.outputs.idxOf l]?.map
    (·.sent)).getD []

/-- What is read at a location when the operators of some nodes came to these emissions. -/
def feedsAmong (w : Workplace) (ups : List OperatorNode) (written : OperatorNode → Emission)
    (l : Location) : List Feed :=
  ups.map fun u => Feed.ofStream (.ofBytes (u.streamTo w (written u) l))

/-- What a worker comes to over what it reads. -/
def workedOn (w : Workplace) (ups : List OperatorNode) (written : OperatorNode → Emission)
    (arrivals : OperatorNode → List Nat) (k : OperatorNode) : Emission :=
  k.operator.run w (arrivals k) (feedsAmong w ups written k.location)

/-- Nodes that write rows of one schema, in whatever splits, and workers that read them in whatever
order. All end well, and what they send is short enough to count its bytes in a word. -/
structure Shuffle (w : Workplace) (schema : Schema) (ups team : List OperatorNode)
    (written : OperatorNode → Emission) (arrivals : OperatorNode → List Nat) : Prop where
  schemas : ∀ u ∈ ups, (written u).schema = some schema
  splits : ∀ u ∈ ups, ∀ s ∈ (written u).splits, s.Under schema
  sent : ∀ u ∈ ups, ∃ stats,
    ((written u).send (u.router w.batchRows u.outputs.length)).1 = .ok stats
  length : ∀ u ∈ ups, ∀ k ∈ team, (u.streamTo w (written u) k.location).length < lengthLimit
  ended : ∀ k ∈ team, ∃ stats, (workedOn w ups written arrivals k).outcome = .ok stats

/-- A worker has taken in all rows that it read and has written a row for each of their groups. -/
structure Worked (schema : Schema) (keys : List String) (aggregates : List Aggregate)
    (emptyRow : Bool) (read out : List Row) (g : Grouping) (groups : List Group) : Prop where
  resolved : Grouping.resolve keys aggregates schema = .ok g
  grouped : ∃ taken : List Row, taken.Perm read ∧ ∀ slots, g.Over slots → Grouped g slots taken groups
  out : out = (g.closed emptyRow groups).map Group.row

/-- Rows that were dealt out by their keys, and groups that are each written once. -/
structure KeptWhole (schema : Schema) (keys : List String) (aggregates : List Aggregate)
    (keyColumns : List Nat) (sent : List Row) (team : List OperatorNode)
    (read out : OperatorNode → List Row) : Prop where
  columns : keys.mapM (Grouping.keyColumn schema) = .ok keyColumns
  dealt : (sent.map Row.values).Perm (team.flatMap fun k => (read k).map Row.values)
  together : ∀ k ∈ team, ∀ k' ∈ team, ∀ r ∈ read k, ∀ t ∈ read k',
    groupKey keyColumns r = groupKey keyColumns t → k = k'
  worked : ∀ k ∈ team, ∃ emptyRow g groups,
    Worked schema keys aggregates emptyRow (read k) (out k) g groups
  once : (keys = [] → sent ≠ []) →
    (team.flatMap fun k => (out k).map fun r => keyBytes (r.values.take keys.length)).Perm
      (sent.map (groupKey keyColumns)).dedup
  alone : keys = [] → (team.flatMap out).length = 1

section Run

variable {w : Workplace} {schema : Schema} {q : UInt64} {nodes ups team : List OperatorNode}
  {keys : List String} {aggregates : List Aggregate} {written : OperatorNode → Emission}
  {arrivals : OperatorNode → List Nat} {u k : OperatorNode}

theorem length_batchFrame (s : Split) : (payload s).length ≤ (StreamWriter.batchFrame s).length := by
  rw [StreamWriter.batchFrame, Frame.length_encode]
  exact Nat.le_add_left _ _

/-- A stream of which the length can be counted has frames of which the lengths can be counted. -/
theorem fits_of_length {batches : List Split} (h : (stream schema batches).length < lengthLimit) :
    Fits (lengthLimit - 1) schema batches := by
  rw [stream, List.length_append, List.length_append] at h
  constructor
  · have hframe : schema.encode.length ≤ (StreamWriter.schemaFrame schema).length := by
      rw [StreamWriter.schemaFrame, Frame.length_encode]
      exact Nat.le_add_left _ _
    omega
  · intro s hs
    have hbatch := length_batchFrame s
    have hall : (StreamWriter.batchFrame s).length ≤
        (batches.flatMap StreamWriter.batchFrame).length := Codec.length_le_of_mem hs
    omega

/-- The number of a worker. -/
def rankIn (team : List OperatorNode) (k : OperatorNode) : Nat := (placesOf team).idxOf k.location

/-- What a node sends to a worker. -/
def handed (w : Workplace) (team : List OperatorNode) (written : OperatorNode → Emission)
    (u k : OperatorNode) : List Split :=
  (written u).batchesTo team.length u.partitioning w.batchRows (rankIn team k)

theorem rankIn_lt (hk : k ∈ team) : rankIn team k < team.length := by
  have hlt := List.idxOf_lt_length_of_mem (List.mem_map_of_mem (f := OperatorNode.location) hk)
  rwa [List.length_map] at hlt

theorem rankIn_getElem (hplaces : (placesOf team).Nodup) {j : Nat} (hj : team[j]? = some k) :
    rankIn team k = j := by
  have hplace : (placesOf team)[j]? = some k.location := by
    rw [placesOf, List.getElem?_map, hj]
    rfl
  obtain ⟨hlt, heq⟩ := List.getElem?_eq_some_iff.mp hplace
  rw [rankIn, ← heq]
  exact List.Nodup.idxOf_getElem hplaces j hlt

theorem map_rankIn (hplaces : (placesOf team).Nodup) :
    team.map (rankIn team) = List.range team.length := by
  refine List.ext_getElem? fun j => ?_
  rw [List.getElem?_map]
  by_cases hj : j < team.length
  · rw [List.getElem?_range hj, List.getElem?_eq_getElem hj]
    exact congrArg some (rankIn_getElem hplaces (List.getElem?_eq_getElem hj))
  · rw [List.getElem?_eq_none (by omega), List.getElem?_eq_none (by simpa using hj)]
    rfl

namespace GroupStage

theorem rank_operator (h : GroupStage q nodes keys aggregates ups team) (hk : k ∈ team) :
    k.operator = groupWorker keys aggregates q (rankIn team k) := by
  obtain ⟨j, hj⟩ := List.getElem?_of_mem hk
  rw [rankIn_getElem h.places hj]
  exact (h.workers j k hj).1

theorem streamTo_eq (h : GroupStage q nodes keys aggregates ups team)
    (hs : Shuffle w schema ups team written arrivals) (hu : u ∈ ups) (hk : k ∈ team) :
    u.streamTo w (written u) k.location = stream schema (handed w team written u k) ∧
      ∃ routed, Router.columnsOf u.partitioning schema = .ok routed := by
  obtain ⟨stats, hsent⟩ := hs.sent u hu
  have houtputs := (h.writers u hu).1
  have hlength : u.outputs.length = team.length := by rw [houtputs, placesOf, List.length_map]
  have hlt := rankIn_lt hk
  rcases hsend : (written u).send (u.router w.batchRows u.outputs.length) with ⟨o, r⟩
  rw [hsend] at hsent
  obtain rfl : o = .ok stats := hsent
  obtain ⟨_, hcolumns, hstreams⟩ := Emission.send_ok (hs.schemas u hu) (by omega) hsend
  refine ⟨?_, hcolumns⟩
  have hrank : u.outputs.idxOf k.location = rankIn team k := by rw [houtputs, rankIn]
  rw [OperatorNode.streamTo, hsend, ← List.getElem?_map, hstreams, hrank, List.getElem?_map,
    hlength, List.getElem?_range hlt]
  rfl

/-- A worker that ends well has read all that the others sent to it. -/
theorem feed_eq (h : GroupStage q nodes keys aggregates ups team) (hcolumns : schema.columns ≠ [])
    (hs : Shuffle w schema ups team written arrivals) (hu : u ∈ ups) (hk : k ∈ team) :
    Feed.ofStream (.ofBytes (u.streamTo w (written u) k.location)) =
      .ofSplits schema ((handed w team written u k).map Split.undirected) := by
  obtain ⟨hstream, _⟩ := h.streamTo_eq hs hu hk
  have hlength := hs.length u hu k hk
  have hunder : ∀ s ∈ handed w team written u k, s.Under schema := fun s hm =>
    Emission.batchesTo_under (hs.schemas u hu) (hs.splits u hu) hm
  obtain ⟨stats, hstats⟩ := hs.ended k hk
  rw [workedOn, h.rank_operator hk] at hstats
  -- The worker has ended well, so what came to it was no less than what was sent.
  obtain ⟨given, _, _, _, _, hended, _⟩ := group_run_grouped hstats
  have hend := hended _ (List.mem_map_of_mem hu)
  rw [hstream] at hlength hend ⊢
  exact Feed.ofStream_stream hunder (.inl hcolumns) (Feed.fits_of_ofStream hunder
    (fits_of_length hlength) ⟨given, hend.schema_eq⟩ hend.fault_eq)

theorem read_eq (h : GroupStage q nodes keys aggregates ups team) (hcolumns : schema.columns ≠ [])
    (hs : Shuffle w schema ups team written arrivals) (hk : k ∈ team) :
    Feed.rows (feedsAmong w ups written k.location) =
      ups.flatMap fun u => rowsOf (handed w team written u k) := by
  rw [Feed.rows, feedsAmong, List.flatMap_map]
  refine List.flatMap_congr fun u hu => ?_
  rw [h.feed_eq hcolumns hs hu hk]
  exact rowsOf_undirected _

theorem dealt (h : GroupStage q nodes keys aggregates ups team) (hteam : team ≠ [])
    (hcolumns : schema.columns ≠ []) (hs : Shuffle w schema ups team written arrivals) :
    ((ups.flatMap fun u => rowsOf (written u).splits).map Row.values).Perm
      (team.flatMap fun k => (Feed.rows (feedsAmong w ups written k.location)).map Row.values) := by
  have hread : (team.flatMap fun k =>
      (Feed.rows (feedsAmong w ups written k.location)).map Row.values) =
        team.flatMap fun k => ups.flatMap fun u =>
          (rowsOf (handed w team written u k)).map Row.values := by
    refine List.flatMap_congr fun k hk => ?_
    rw [h.read_eq hcolumns hs hk, List.map_flatMap]
  rw [hread, List.map_flatMap]
  refine (List.Perm.flatMap_left _ fun u hu => ?_).trans (flatMap_swap_perm team ups _).symm
  obtain ⟨k, hk⟩ := List.exists_mem_of_ne_nil team hteam
  obtain ⟨_, routed, hrouted⟩ := h.streamTo_eq hs hu hk
  have hperm := @Emission.batchesTo_values_perm schema team.length w.batchRows u.partitioning _ _
    (hs.schemas u hu) hrouted (List.length_pos_iff.mpr hteam)
  rw [← map_rankIn h.places, List.flatMap_map] at hperm
  exact hperm.symm

/-- A row reaches the worker that its keys name. -/
theorem bucketOf_eq (h : GroupStage q nodes keys aggregates ups team) (hcolumns : schema.columns ≠ [])
    (hs : Shuffle w schema ups team written arrivals) {keyColumns : List Nat}
    (hkeys : keys.mapM (Grouping.keyColumn schema) = .ok keyColumns) (hk : k ∈ team) {r : Row}
    (hr : r ∈ Feed.rows (feedsAmong w ups written k.location)) :
    bucketOf (groupKey keyColumns r) team.length = rankIn team k := by
  have hlt := rankIn_lt hk
  -- A single worker is written to without hashing; it has the only number there is.
  by_cases hone : team.length ≤ 1
  · rw [bucketOf, if_pos hone]
    omega
  rw [h.read_eq hcolumns hs hk] at hr
  obtain ⟨u, hu, hr⟩ := List.mem_flatMap.mp hr
  obtain ⟨_, routed, hrouted⟩ := h.streamTo_eq hs hu hk
  have hpart : u.partitioning = .hash keys := by
    obtain ⟨houtputs, hpart⟩ := h.writers u hu
    have hlength : u.outputs.length = team.length := by rw [houtputs, placesOf, List.length_map]
    rw [hpart]
    revert hlength
    rcases u.outputs with _ | ⟨l, _ | ⟨l', rest⟩⟩ <;> intro hlength
    · exact absurd (hlength.symm.le.trans (Nat.zero_le 1)) hone
    · exact absurd hlength.symm.le hone
    · rfl
  rw [hpart] at hrouted
  rw [handed, hpart] at hr
  have hbucket := Emission.hashPartition_of_mem_batchesTo (hs.schemas u hu) hrouted hr
  rw [keyColumns_eq hrouted hkeys] at hbucket
  exact hbucket

theorem worked (h : GroupStage q nodes keys aggregates ups team) (hcolumns : schema.columns ≠ [])
    (hs : Shuffle w schema ups team written arrivals) (hk : k ∈ team) :
    ∃ g groups, Worked schema keys aggregates (Plan.groupOwner keys q == some (rankIn team k))
      (Feed.rows (feedsAmong w ups written k.location))
      (rowsOf (workedOn w ups written arrivals k).splits) g groups := by
  obtain ⟨stats, hstats⟩ := hs.ended k hk
  rw [workedOn, h.rank_operator hk] at hstats
  obtain ⟨given, g, taken, groups, _, hended, hresolve, hrows, hgrouped, _, hwritten⟩ :=
    group_run_grouped hstats
  obtain ⟨u, hu⟩ := List.exists_mem_of_ne_nil ups h.sources
  have hgiven := (hended _ (List.mem_map_of_mem hu)).schema_eq
  rw [h.feed_eq hcolumns hs hu hk] at hgiven
  obtain rfl : schema = given := Except.ok.inj hgiven
  refine ⟨g, groups, hresolve, ⟨taken, hrows, hgrouped⟩, ?_⟩
  rw [workedOn, h.rank_operator hk, groupWorker, hwritten]
  exact StreamWriter.rowsOf_batches _ (by omega)

end GroupStage

theorem rankIn_inj (hplaces : (placesOf team).Nodup) {k' : OperatorNode} (hk : k ∈ team)
    (hk' : k' ∈ team) (h : rankIn team k = rankIn team k') : k = k' := by
  refine List.inj_on_of_nodup_map (f := rankIn team) ?_ hk hk' h
  rw [map_rankIn hplaces]
  exact List.nodup_range

theorem map_groupKey (keyColumns : List Nat) (rows : List Row) :
    rows.map (groupKey keyColumns) = (rows.map Row.values).map fun vs =>
      keyBytes (keyColumns.map fun c => vs[c]?.getD .null) := by
  rw [List.map_map]
  rfl

theorem length_flatMap_congr {α β γ : Type} {as : List α} {f : α → List β} {g : α → List γ}
    (h : ∀ a ∈ as, (f a).length = (g a).length) : (as.flatMap f).length = (as.flatMap g).length := by
  rw [List.length_flatMap, List.length_flatMap, List.map_congr_left h]

/-- The worker that owns the only group is the one that all rows without keys reach. -/
theorem groupOwner_iff (hsize : team.length = q.toNat) :
    (Plan.groupOwner [] q == some (rankIn team k)) = true ↔
      rankIn team k = hashPartition [] team.length := by
  rw [beq_iff_eq, hsize]
  exact ⟨fun h => (Option.some.inj h).symm, fun h => congrArg some h.symm⟩

/-- Keys that workers write each once are written once by all of them, if no two share a key. -/
theorem dedup_of_together {sent : List Row} {read : OperatorNode → List Row} {keyColumns : List Nat}
    {keysOf : OperatorNode → List Bytes} (hplaces : (placesOf team).Nodup)
    (hdealt : (sent.map Row.values).Perm (team.flatMap fun k => (read k).map Row.values))
    (htogether : ∀ k ∈ team, ∀ k' ∈ team, ∀ r ∈ read k, ∀ t ∈ read k',
      groupKey keyColumns r = groupKey keyColumns t → k = k')
    (hkeys : ∀ k ∈ team, (keysOf k).Perm ((read k).map (groupKey keyColumns)).dedup) :
    (team.flatMap keysOf).Perm (sent.map (groupKey keyColumns)).dedup := by
  refine (List.Perm.flatMap_left _ hkeys).trans ?_
  -- Neither side repeats a key, so it is enough that they have the same ones.
  refine (List.perm_ext_iff_of_nodup ?_ (List.nodup_dedup _)).mpr fun key => ?_
  · refine List.nodup_flatMap.mpr ⟨fun _ _ => List.nodup_dedup _, ?_⟩
    refine List.Pairwise.imp_of_mem (fun {k k'} hk hk' hne key hkey hkey' => hne ?_)
      (List.Nodup.of_map _ hplaces)
    obtain ⟨r, hr, rfl⟩ := List.mem_map.mp (List.mem_dedup.mp hkey)
    obtain ⟨t, ht, hsame⟩ := List.mem_map.mp (List.mem_dedup.mp hkey')
    exact htogether k hk k' hk' r hr t ht hsame.symm
  · rw [List.mem_dedup, map_groupKey, (hdealt.map _).mem_iff, List.map_flatMap, List.mem_flatMap,
      List.mem_flatMap]
    simp only [List.mem_dedup, map_groupKey]

namespace GroupStage

variable {g : Grouping} {slots : List AggregateSlot}

theorem length_pos (h : GroupStage q nodes keys aggregates ups team) (hq : q ≠ 0) :
    0 < team.length := h.size ▸ toNat_pos hq

theorem together (h : GroupStage q nodes keys aggregates ups team) (hcolumns : schema.columns ≠ [])
    (hs : Shuffle w schema ups team written arrivals) {keyColumns : List Nat}
    (hkeys : keys.mapM (Grouping.keyColumn schema) = .ok keyColumns) :
    ∀ k ∈ team, ∀ k' ∈ team, ∀ r ∈ Feed.rows (feedsAmong w ups written k.location),
      ∀ t ∈ Feed.rows (feedsAmong w ups written k'.location),
        groupKey keyColumns r = groupKey keyColumns t → k = k' := by
  intro k hk k' hk' r hr t ht hsame
  refine rankIn_inj h.places hk hk' ?_
  rw [← h.bucketOf_eq hcolumns hs hkeys hk hr, ← h.bucketOf_eq hcolumns hs hkeys hk' ht, hsame]

theorem worked_as (h : GroupStage q nodes keys aggregates ups team) (hcolumns : schema.columns ≠ [])
    (hs : Shuffle w schema ups team written arrivals)
    (hg : Grouping.resolve keys aggregates schema = .ok g) (hover : g.Over slots) (hk : k ∈ team) :
    ∃ taken groups, taken.Perm (Feed.rows (feedsAmong w ups written k.location)) ∧
      Grouped g slots taken groups ∧ rowsOf (workedOn w ups written arrivals k).splits =
        (g.closed (Plan.groupOwner keys q == some (rankIn team k)) groups).map Group.row := by
  obtain ⟨g', groups, hg', ⟨taken, hperm, hgrouped⟩, hout⟩ := h.worked hcolumns hs hk
  obtain rfl : g' = g := Except.ok.inj (hg'.symm.trans hg)
  exact ⟨taken, groups, hperm, hgrouped slots hover, hout⟩

/-- Without keys the worker that owns the group is the only one with rows. -/
theorem owner_of_mem (h : GroupStage q nodes [] aggregates ups team) (hcolumns : schema.columns ≠ [])
    (hs : Shuffle w schema ups team written arrivals) (hk : k ∈ team) {r : Row}
    (hr : r ∈ Feed.rows (feedsAmong w ups written k.location)) :
    rankIn team k = hashPartition [] team.length :=
  (h.bucketOf_eq hcolumns hs rfl hk hr).symm

theorem written_keys (h : GroupStage q nodes keys aggregates ups team)
    (hcolumns : schema.columns ≠ []) (hs : Shuffle w schema ups team written arrivals)
    (hg : Grouping.resolve keys aggregates schema = .ok g) (hover : g.Over slots)
    (hkeys : keys.mapM (Grouping.keyColumn schema) = .ok g.keyColumns) (hteam : team ≠ [])
    (hsome : keys = [] → (ups.flatMap fun u => rowsOf (written u).splits) ≠ []) (hk : k ∈ team) :
    ((rowsOf (workedOn w ups written arrivals k).splits).map fun r =>
      keyBytes (r.values.take keys.length)).Perm
        ((Feed.rows (feedsAmong w ups written k.location)).map (groupKey g.keyColumns)).dedup := by
  obtain ⟨taken, groups, hperm, hgrouped, hout⟩ := h.worked_as hcolumns hs hg hover hk
  have hlength : g.keyColumns.length = keys.length := (mapM_ok hkeys).length_eq.symm
  rw [hout, ← hlength]
  refine (hgrouped.written_keys fun hnokeys howner htaken => ?_).trans (hperm.map _).dedup
  obtain rfl : keys = [] := List.length_eq_zero_iff.mp (hlength ▸ List.length_eq_zero_iff.mpr hnokeys)
  -- The rows have all come to the owner, and so to this worker.
  have hrank := (groupOwner_iff h.size).mp howner
  obtain ⟨r, hr⟩ := List.exists_mem_of_ne_nil _ (hsome rfl)
  have hdealt := h.dealt hteam hcolumns hs
  obtain ⟨k', hk', hr⟩ := List.mem_flatMap.mp (hdealt.mem_iff.mp (List.mem_map_of_mem hr))
  obtain ⟨t, ht, _⟩ := List.mem_map.mp hr
  obtain rfl := rankIn_inj h.places hk hk' (hrank.trans (h.owner_of_mem hcolumns hs hk' ht).symm)
  rw [← hperm.mem_iff, htaken] at ht
  cases ht

theorem length_written (h : GroupStage q nodes [] aggregates ups team)
    (hcolumns : schema.columns ≠ []) (hs : Shuffle w schema ups team written arrivals)
    (hg : Grouping.resolve [] aggregates schema = .ok g) (hover : g.Over slots)
    (hnokeys : g.keyColumns = []) (hk : k ∈ team) :
    (rowsOf (workedOn w ups written arrivals k).splits).length =
      (if rankIn team k = hashPartition [] team.length then [()] else []).length := by
  obtain ⟨taken, groups, hperm, hgrouped, hout⟩ := h.worked_as hcolumns hs hg hover hk
  rw [hout, hgrouped.length_written hnokeys]
  have hmine : taken ≠ [] → rankIn team k = hashPartition [] team.length := by
    intro htaken
    obtain ⟨r, hr⟩ := List.exists_mem_of_ne_nil taken htaken
    exact h.owner_of_mem hcolumns hs hk (hperm.mem_iff.mp hr)
  by_cases howner : rankIn team k = hashPartition [] team.length
  · rw [if_pos (.inr ((groupOwner_iff h.size).mpr howner)), if_pos howner]
    rfl
  · rw [if_neg fun hor => howner (hor.elim hmine (groupOwner_iff h.size).mp), if_neg howner]
    rfl

/-- A stage whose nodes end well has kept every row and every group whole. -/
theorem keptWhole (h : GroupStage q nodes keys aggregates ups team) (hq : q ≠ 0)
    (hcolumns : schema.columns ≠ []) (hs : Shuffle w schema ups team written arrivals) :
    ∃ keyColumns, KeptWhole schema keys aggregates keyColumns
      (ups.flatMap fun u => rowsOf (written u).splits) team
      (fun k => Feed.rows (feedsAmong w ups written k.location))
      (fun k => rowsOf (workedOn w ups written arrivals k).splits) := by
  have hpos := h.length_pos hq
  have hteam : team ≠ [] := List.length_pos_iff.mp hpos
  obtain ⟨k₀, hk₀⟩ := List.exists_mem_of_ne_nil team hteam
  obtain ⟨g, _, hg, _, _⟩ := h.worked hcolumns hs hk₀
  obtain ⟨hkeys, slots, _, hover, _⟩ := resolve_ok hg
  have hdealt := h.dealt hteam hcolumns hs
  have htogether := h.together hcolumns hs hkeys
  refine ⟨g.keyColumns, hkeys, hdealt, htogether, fun k hk => ?_, fun hsome => ?_, ?_⟩
  · obtain ⟨g', groups, hworked⟩ := h.worked hcolumns hs hk
    exact ⟨_, g', groups, hworked⟩
  · exact dedup_of_together h.places hdealt htogether fun k hk =>
      h.written_keys hcolumns hs hg hover hkeys hteam hsome hk
  · rintro rfl
    have hnokeys : g.keyColumns = [] := (Except.ok.inj hkeys).symm
    rw [length_flatMap_congr fun k hk => h.length_written hcolumns hs hg hover hnokeys hk]
    have hone := flatMap_range_single (hashPartition_lt [] hpos) [()]
    rw [← map_rankIn h.places, List.flatMap_map] at hone
    rw [hone]
    rfl

end GroupStage

end Run

/-- No grouping of a bound plan splits or loses a group. However rows come to the nodes that write to
its workers and in whatever order they arrive, if all end well then each row is grouped by one worker,
rows with the same keys by the same, and each group is written once. Without keys there is one group,
if only of no rows. -/
theorem groups_kept_whole {plan : Plan} {q : UInt64} {prior nodes : List OperatorNode}
    {free left : List Location} {root : OperatorNode} (hfree : free.Nodup)
    (hbind : plan.bindOnto q prior free = (.ok root, nodes, left)) :
    ∃ added, nodes = prior ++ added ∧
      (∀ m ∈ added, ∀ (keys : List String) (aggregates : List Aggregate) (emptyRow : Bool),
        m.operator = .group keys aggregates emptyRow →
          ∃ ups team, m ∈ team ∧ GroupStage q added keys aggregates ups team) ∧
      ∀ (keys : List String) (aggregates : List Aggregate) (ups team : List OperatorNode),
        GroupStage q added keys aggregates ups team →
          ∀ (w : Workplace) (schema : Schema) (written : OperatorNode → Emission)
            (arrivals : OperatorNode → List Nat), schema.columns ≠ [] →
              Shuffle w schema ups team written arrivals → ∃ keyColumns,
                KeptWhole schema keys aggregates keyColumns
                  (ups.flatMap fun u => rowsOf (written u).splits) team
                  (fun k => Feed.rows (feedsAmong w ups written k.location))
                  (fun k => rowsOf (workedOn w ups written arrivals k).splits) := by
  obtain ⟨needed, _, hcount, _⟩ := Plan.bindOnto_ok hbind
  have hq : q ≠ 0 := by
    rintro rfl
    cases hcount
  obtain ⟨added, hnodes, hstaged⟩ := staged_bindOnto hfree hbind
  exact ⟨added, hnodes, hstaged, fun keys aggregates ups team hstage w schema written arrivals
    hcolumns hs => hstage.keptWhole hq hcolumns hs⟩

section Dealt

/-! Two workers group the numbers that one node deals out to them. -/

def dealtColumns : Schema := { columns := [⟨"n", .int64⟩] }

def dealtPlan : Plan where
  stages := [.group ["n"] []]
  scan :=
    { catalog := "c", schema := "s", table := "t", columns := dealtColumns, partitions := 1,
      filters := [] }

def dealtHosts : List Location := ["top", "one", "two", "below"].map fun name => ⟨name, "host", 1⟩

def dealtWorkplace : Workplace where
  tables := MemoryTables.store []
  batchRows := 4
  sortLimit := none

/-- Numbers in two splits. -/
def dealtEmission : Emission where
  schema := some dealtColumns
  splits := [[1, 2], [1]].map fun ns =>
    { schema := dealtColumns, rows := ns.map fun n => { values := [.int64 n] } }
  outcome := .ok ⟨3, 3⟩

def dealtNodes : List OperatorNode := (dealtPlan.bindOnto 2 [] dealtHosts).2.1

theorem dealt_stage : GroupStage 2 dealtNodes ["n"] [] (dealtNodes.take 1)
    ((dealtNodes.drop 1).take 2) where
  nodes n hn := by
    rcases List.mem_append.mp hn with hn | hn
    · exact List.mem_of_mem_take hn
    · exact List.mem_of_mem_drop (List.mem_of_mem_take hn)
  size := rfl
  places := by
    have hplaces : placesOf ((dealtNodes.drop 1).take 2) = [⟨"one", "host", 1⟩, ⟨"two", "host", 1⟩] :=
      rfl
    rw [hplaces]
    decide
  sources := List.ne_nil_of_length_pos (by decide +kernel)
  workers j k hk := by
    match j, hk with
    | 0, hk => cases hk; exact ⟨rfl, rfl⟩
    | 1, hk => cases hk; exact ⟨rfl, rfl⟩
    | j + 2, hk => cases hk
  writers u hu := by
    obtain rfl := List.mem_singleton.mp hu
    exact ⟨rfl, rfl⟩

theorem dealt_shuffle : Shuffle dealtWorkplace dealtColumns (dealtNodes.take 1)
    ((dealtNodes.drop 1).take 2) (fun _ => dealtEmission) fun _ => [] where
  schemas _ _ := rfl
  splits _ _ s hs := by
    obtain ⟨ns, _, rfl⟩ := List.mem_map.mp hs
    refine ⟨rfl, fun r hr => ?_⟩
    obtain ⟨n, _, rfl⟩ := List.mem_map.mp hr
    exact ⟨rfl, rfl, rfl⟩
  sent u hu := by
    have hall : ∀ u ∈ dealtNodes.take 1, ((dealtEmission.send
        (u.router dealtWorkplace.batchRows u.outputs.length)).1).toOption.isSome := by
      decide +kernel
    exact ok_of_isSome_toOption (hall u hu)
  length := by decide +kernel
  ended k hk := by
    have hall : ∀ k ∈ (dealtNodes.drop 1).take 2, (workedOn dealtWorkplace (dealtNodes.take 1)
        (fun _ => dealtEmission) (fun _ => []) k).outcome.toOption.isSome := by
      decide +kernel
    exact ok_of_isSome_toOption (hall k hk)

theorem groups_kept_whole_dealt : dealtHosts.Nodup ∧
    GroupStage 2 dealtNodes ["n"] [] (dealtNodes.take 1) ((dealtNodes.drop 1).take 2) ∧
    ∃ keyColumns, KeptWhole dealtColumns ["n"] [] keyColumns (rowsOf dealtEmission.splits)
      ((dealtNodes.drop 1).take 2)
      (fun k => Feed.rows (feedsAmong dealtWorkplace (dealtNodes.take 1) (fun _ => dealtEmission)
        k.location))
      (fun k => rowsOf (workedOn dealtWorkplace (dealtNodes.take 1) (fun _ => dealtEmission)
        (fun _ => []) k).splits) := by
  have hfree : dealtHosts.Nodup := by decide
  obtain ⟨root, hroot⟩ : ∃ root, dealtPlan.bindOnto 2 [] dealtHosts = (.ok root, dealtNodes, []) :=
    ⟨_, rfl⟩
  obtain ⟨added, hadded, _, hwhole⟩ := groups_kept_whole hfree hroot
  obtain rfl : dealtNodes = added := hadded
  obtain ⟨keyColumns, hkept⟩ := hwhole _ _ _ _ dealt_stage _ _ _ _ (List.cons_ne_nil _ _) dealt_shuffle
  refine ⟨hfree, dealt_stage, keyColumns, ?_⟩
  rwa [show (dealtNodes.take 1).flatMap (fun _ => rowsOf dealtEmission.splits) =
    rowsOf dealtEmission.splits from List.append_nil _] at hkept

end Dealt

end QueryCluster
