import QueryCluster.Proofs.Graph.Assembly
import QueryCluster.Proofs.Graph.Run
import QueryCluster.Proofs.Operator.Rowwise
import QueryCluster.Proofs.Operator.Tally

/-!
# From layer to layer

What the nodes of a layer write reaches the next layer as it was written: every row once, at one of
the nodes, and at the node that its keys name if the rows are hashed. Rows that went over a stream
have values short enough to be counted in a word.
-/
namespace QueryCluster

open StreamWriter (payload stream Fits)
open Codec (lengthLimit)
open Plan (layerNode)

theorem flatMap_swap_perm {α β γ : Type} (bs : List β) (cs : List γ) (f : γ → β → List α) :
    (bs.flatMap fun b => cs.flatMap fun c => f c b).Perm
      (cs.flatMap fun c => bs.flatMap fun b => f c b) := by
  induction cs with
  | nil => simp
  | cons c cs ih =>
    simp only [List.flatMap_cons]
    exact (List.flatMap_append_perm _ _ _).symm.trans (ih.append_left _)

/-- A value of a batch is not longer than the batch. -/
theorem short_of_payload {s : Split} (h : (payload s).length ≤ maxPayload) {r : Row}
    (hr : r ∈ s.rows) {c : Nat} (hc : c < s.schema.columns.length) :
    (Grouping.valueAt r c).Short := by
  have hvalue : (Grouping.valueAt r c).encode.length ≤ ((s.column c).flatMap Value.encode).length :=
    Codec.length_le_of_mem (List.mem_map.mpr ⟨r, hr, rfl⟩)
  have hcolumn : (Codec.encodeList Value.encode (s.column c)).length ≤
      (s.columns.flatMap (Codec.encodeList Value.encode)).length :=
    Codec.length_le_of_mem (List.mem_map.mpr ⟨c, List.mem_range.mpr hc, rfl⟩)
  have hlimit : maxPayload < lengthLimit := by decide
  rw [Value.Short]
  rw [Codec.encodeList, List.length_append] at hcolumn
  have h : (Codec.encodeList (Codec.encodeList Value.encode) s.columns ++
    Codec.encodeList (Codec.encodeList Value.encode) s.keyColumns ++
    Codec.encodeList (Codec.encodeList Codec.encodeFlag) s.flagColumns).length ≤ maxPayload := h
  rw [List.length_append, List.length_append, Codec.encodeList, List.length_append] at h
  omega

namespace OperatorNode

/-- What a node hands to its output, over the streams of some progress. -/
def emissionIn (w : Workplace) (arrivals : OperatorNode → List Nat) (p : Progress)
    (n : OperatorNode) : Emission :=
  n.operator.run w (arrivals n) (n.feeds p.wires)

/-- A node that fits the streams around it and writes no frame that is too long. -/
structure Executed (w : Workplace) (arrivals : OperatorNode → List Nat) (p : Progress)
    (n : OperatorNode) : Prop where
  solved : n.Solved w (arrivals n) p
  frames : n.FramesWithin maxPayload w (arrivals n) (n.feeds p.wires) n.outputs.length

theorem Executed.outcome {w : Workplace} {arrivals : OperatorNode → List Nat} {p : Progress}
    {n : OperatorNode} (h : n.Executed w arrivals p) :
    ∃ stats, (n.emissionIn w arrivals p).outcome = .ok stats := by
  obtain ⟨⟨stats, rows⟩, hx⟩ := h.solved.outcome
  exact ⟨stats, outcome_of_execute hx⟩

end OperatorNode

/-- Feeds that operators can work on. -/
structure Served (schema : Schema) (feeds : List Feed) : Prop where
  under : ∀ f ∈ feeds, f.Under schema
  short : ∀ r ∈ Feed.rows feeds, ∀ c < schema.columns.length, (Grouping.valueAt r c).Short

section Layers

variable (w : Workplace) (arrivals : OperatorNode → List Nat) (p : Progress)

/-- Nodes of a layer that have written some rows, each its share. -/
structure Gathered (targets : Targets) (tops : List Location) (schema : Schema) (rows : List Row)
    (node : Nat → OperatorNode) (share : Nat → List Row) : Prop where
  executed : ∀ i < tops.length, (node i).Executed w arrivals p
  location : ∀ i < tops.length, tops[i]? = some (node i).location
  outputs : ∀ i < tops.length, (node i).outputs = targets.outputs i
  partitioning : ∀ i < tops.length, (node i).partitioning = targets.partitioning
  gives : ∀ i < tops.length, ((node i).emissionIn w arrivals p).Gives schema (share i)
  rows : rows.Perm ((List.range tops.length).flatMap share)

/-- What an executor reads of some others. -/
def feedsAt (sources : List Location) (l : Location) : List Feed :=
  sources.map fun u => p.feed u.name l.name

/-- A layer that some rows have reached, each node by its inputs. -/
structure Dealt (layer : List Location) (inputs : Nat → List Location) (schema : Schema)
    (rows : List Row) (got : Nat → List Row) : Prop where
  served : ∀ (j : Nat) (l : Location), layer[j]? = some l → Served schema (feedsAt p (inputs j) l)
  reads : ∀ (j : Nat) (l : Location), layer[j]? = some l → Feed.rows (feedsAt p (inputs j) l) = got j
  rows : rows.Perm ((List.range layer.length).flatMap got)

end Layers

section Deliver

variable {w : Workplace} {arrivals : OperatorNode → List Nat} {p : Progress} {targets : Targets}
  {tops layer : List Location} {schema : Schema} {rows : List Row} {node : Nat → OperatorNode}
  {share : Nat → List Row}

/-- What node `i` of a layer sends to its output `j`. -/
def sentTo (w : Workplace) (arrivals : OperatorNode → List Nat) (p : Progress) (n : OperatorNode)
    (j : Nat) : List Split :=
  (n.emissionIn w arrivals p).batchesTo n.outputs.length n.partitioning w.batchRows j

theorem served_of_batches {parts : Nat → List Split} {n : Nat}
    (hu : ∀ i < n, ∀ s ∈ parts i, s.Under schema)
    (hl : ∀ i < n, ∀ s ∈ parts i, (payload s).length ≤ maxPayload) :
    Served schema ((List.range n).map fun i => .ofSplits schema ((parts i).map Split.undirected)) ∧
      Feed.rows ((List.range n).map fun i => .ofSplits schema ((parts i).map Split.undirected)) =
        (List.range n).flatMap fun i => rowsOf (parts i) := by
  have hrows : Feed.rows ((List.range n).map fun i =>
      .ofSplits schema ((parts i).map Split.undirected)) =
        (List.range n).flatMap fun i => rowsOf (parts i) := by
    rw [Feed.rows, List.flatMap_map]
    exact List.flatMap_congr fun i _ => rowsOf_undirected (parts i)
  refine ⟨⟨fun f hf => ?_, fun r hr c hc => ?_⟩, hrows⟩
  · obtain ⟨i, hi, rfl⟩ := List.mem_map.mp hf
    refine ⟨fun s hs => (Except.ok.inj hs).symm, fun s hs => ?_⟩
    obtain ⟨b, hb, rfl⟩ := List.mem_map.mp hs
    exact ⟨(hu i (List.mem_range.mp hi) b hb).schema_eq, (hu i (List.mem_range.mp hi) b hb).wellFormed⟩
  · rw [hrows] at hr
    obtain ⟨i, hi, hr⟩ := List.mem_flatMap.mp hr
    obtain ⟨b, hb, hr⟩ := List.mem_flatMap.mp hr
    have hi := List.mem_range.mp hi
    exact short_of_payload (hl i hi b hb) hr ((hu i hi b hb).schema_eq ▸ hc)

namespace Gathered

/-- What an output of a node reads of it. -/
theorem feed (hg : Gathered w arrivals p targets tops schema rows node share) (hc : schema.Counts)
    {i j : Nat} (hi : i < tops.length) {l : Location} (hl : (targets.outputs i)[j]? = some l) :
    p.feed (node i).location.name l.name =
        .ofSplits schema ((sentTo w arrivals p (node i) j).map Split.undirected) ∧
      (∀ s ∈ sentTo w arrivals p (node i) j, s.Under schema) ∧
      (∀ s ∈ sentTo w arrivals p (node i) j, (payload s).length ≤ maxPayload) ∧
      ∃ keyColumns, Router.columnsOf targets.partitioning schema = .ok keyColumns := by
  have hn := hg.executed i hi
  have hgives := hg.gives i hi
  rw [← hg.outputs i hi] at hl
  have hj : j < (node i).outputs.length := (List.getElem?_eq_some_iff.mp hl).1
  have hroot : (node i).isRoot = false :=
    List.isEmpty_eq_false_iff.mpr (List.length_pos_iff.mp (Nat.lt_of_le_of_lt (Nat.zero_le j) hj))
  obtain ⟨x, hx⟩ := hn.solved.outcome
  obtain ⟨hcolumns, hsent⟩ := OperatorNode.execute_ok hroot (Nat.lt_of_le_of_lt (Nat.zero_le j) hj)
    hgives.schema_eq hx
  have hfits := hn.frames schema hgives.schema_eq j hj
  have hunder : ∀ s ∈ sentTo w arrivals p (node i) j, s.Under schema := fun s hs =>
    Emission.batchesTo_under hgives.schema_eq hgives.splits hs
  refine ⟨?_, hunder, hfits.batches, hg.partitioning i hi ▸ hcolumns⟩
  have hstream : p.sent (node i).location.name l.name =
      some (stream schema (sentTo w arrivals p (node i) j)) := by
    rw [hn.solved.sent j l hl, OperatorNode.executionIn, hsent, List.getElem?_map,
      List.getElem?_range hj]
    rfl
  rw [Progress.feed, hstream, Option.getD_some, Feed.ofStream_stream hunder hc hfits]
  rfl

/-- All that a node writes is sent. -/
theorem sent_perm (hg : Gathered w arrivals p targets tops schema rows node share)
    (hk : ∀ keys, targets.partitioning = .hash keys → schema.keys = []) {i : Nat}
    (hi : i < tops.length) (ho : 0 < (targets.outputs i).length)
    (hc : ∃ keyColumns, Router.columnsOf targets.partitioning schema = .ok keyColumns) :
    ((List.range (targets.outputs i).length).flatMap fun j =>
      rowsOf (sentTo w arrivals p (node i) j)).Perm (share i) := by
  obtain ⟨keyColumns, hc⟩ := hc
  have hgives := hg.gives i hi
  rw [← hg.partitioning i hi] at hc hk
  rw [← hg.outputs i hi] at ho ⊢
  exact (Emission.batchesTo_perm hgives.schema_eq hc ho hgives.splits hk).trans hgives.rows

theorem feedsAt_eq (hg : Gathered w arrivals p targets tops schema rows node share)
    (hc : schema.Counts) {j : Nat} {l : Location}
    (hl : ∀ i < tops.length, (targets.outputs i)[j]? = some l) :
    feedsAt p tops l = (List.range tops.length).map fun i =>
      .ofSplits schema ((sentTo w arrivals p (node i) j).map Split.undirected) := by
  refine List.ext_getElem? fun i => ?_
  rw [feedsAt, List.getElem?_map, List.getElem?_map]
  by_cases hi : i < tops.length
  · rw [hg.location i hi, List.getElem?_range hi]
    exact congrArg some (hg.feed hc hi (hl i hi)).1
  · rw [List.getElem?_eq_none (by omega), List.getElem?_eq_none (by simpa using hi)]
    rfl

/-- Every node of the next layer reads every node of this one. -/
theorem fanOut {partitioning : Partitioning}
    (hg : Gathered w arrivals p (.fanOut layer partitioning) tops schema rows node share)
    (hc : schema.Counts) (hk : ∀ keys, partitioning = .hash keys → schema.keys = [])
    (hlayer : 0 < layer.length) :
    Dealt p layer (fun _ => tops) schema rows fun j =>
      (List.range tops.length).flatMap fun i => rowsOf (sentTo w arrivals p (node i) j) := by
  have hparts : ∀ j l, layer[j]? = some l →
      Served schema (feedsAt p tops l) ∧ Feed.rows (feedsAt p tops l) =
        (List.range tops.length).flatMap fun i => rowsOf (sentTo w arrivals p (node i) j) := by
    intro j l hl
    have hout : ∀ i < tops.length, ((Targets.fanOut layer partitioning).outputs i)[j]? = some l :=
      fun _ _ => hl
    rw [hg.feedsAt_eq hc hout]
    exact served_of_batches (fun i hi => (hg.feed hc hi (hout i hi)).2.1)
      (fun i hi => (hg.feed hc hi (hout i hi)).2.2.1)
  refine ⟨fun j l hl => (hparts j l hl).1, fun j l hl => (hparts j l hl).2, ?_⟩
  refine hg.rows.trans (List.Perm.trans ?_ (flatMap_swap_perm _ _ _).symm)
  refine (List.Perm.flatMap_left _ fun i hi => ?_).symm
  have hi := List.mem_range.mp hi
  have hfirst : ((Targets.fanOut layer partitioning).outputs i)[0]? = some layer[0] :=
    List.getElem?_eq_getElem hlayer
  refine hg.sent_perm (fun keys hp => hk keys ?_) hi hlayer (hg.feed hc hi hfirst).2.2.2
  match layer, hp with
  | [], hp => exact hp
  | _ :: _ :: _, hp => exact hp

/-- A node of the next layer reads its partner. -/
theorem paired (hg : Gathered w arrivals p (.paired layer) tops schema rows node share)
    (hc : schema.Counts) (hlen : layer.length = tops.length) :
    Dealt p layer (fun i => tops[i]?.toList) schema rows fun j =>
      rowsOf (sentTo w arrivals p (node j) 0) := by
  have hout : ∀ {j l}, layer[j]? = some l → ((Targets.paired layer).outputs j) = [l] := by
    intro j l hl
    rw [Targets.outputs, hl]
    rfl
  have hparts : ∀ j l, layer[j]? = some l →
      Served schema (feedsAt p tops[j]?.toList l) ∧
        Feed.rows (feedsAt p tops[j]?.toList l) = rowsOf (sentTo w arrivals p (node j) 0) := by
    intro j l hl
    have hj : j < tops.length := hlen ▸ (List.getElem?_eq_some_iff.mp hl).1
    obtain ⟨hfeed, hunder, hfit, _⟩ := hg.feed (j := 0) hc hj (by rw [hout hl]; rfl)
    have hone : feedsAt p tops[j]?.toList l = (List.range 1).map fun _ =>
        .ofSplits schema ((sentTo w arrivals p (node j) 0).map Split.undirected) := by
      rw [hg.location j hj]
      exact congrArg (fun f => [f]) hfeed
    obtain ⟨hserved, hrows⟩ := served_of_batches (n := 1) (fun _ _ => hunder) (fun _ _ => hfit)
    rw [hone]
    refine ⟨hserved, hrows.trans ?_⟩
    rw [List.range_one, List.flatMap_singleton]
  refine ⟨fun j l hl => (hparts j l hl).1, fun j l hl => (hparts j l hl).2, ?_⟩
  rw [hlen]
  refine hg.rows.trans (List.Perm.flatMap_left _ fun i hi => ?_)
  have hi := List.mem_range.mp hi
  have hl : layer[i]? = some layer[i] := List.getElem?_eq_getElem (hlen ▸ hi)
  have hone := hout hl
  have hfirst : ((Targets.paired layer).outputs i)[0]? = some layer[i] := by rw [hone]; rfl
  have hperm := hg.sent_perm (fun _ h => by cases h) hi (by rw [hone]; simp)
    (hg.feed hc hi hfirst).2.2.2
  rw [hone, List.length_singleton, List.range_one, List.flatMap_singleton] at hperm
  exact hperm.symm

/-- One node reads all. -/
theorem replicate {root : Location} {k : Nat}
    (hg : Gathered w arrivals p (.paired (List.replicate k root)) tops schema rows node share)
    (hc : schema.Counts) (hlen : tops.length ≤ k) :
    Dealt p [root] (fun _ => tops) schema rows fun _ =>
      (List.range tops.length).flatMap fun i => rowsOf (sentTo w arrivals p (node i) 0) := by
  have hone : ∀ i < tops.length, (Targets.paired (List.replicate k root)).outputs i = [root] := by
    intro i hi
    rw [Targets.outputs, List.getElem?_replicate, if_pos (by omega)]
    rfl
  have hout : ∀ i < tops.length, ((Targets.paired (List.replicate k root)).outputs i)[0]? =
      some root := fun i hi => by rw [hone i hi]; rfl
  have hparts := served_of_batches (fun i hi => (hg.feed hc hi (hout i hi)).2.1)
    (fun i hi => (hg.feed hc hi (hout i hi)).2.2.1)
  rw [← hg.feedsAt_eq hc hout] at hparts
  have hroot : ∀ (j : Nat) (l : Location), [root][j]? = some l → l = root := by
    intro j l hl
    exact List.mem_singleton.mp (List.mem_of_getElem? hl)
  refine ⟨fun j l hl => hroot j l hl ▸ hparts.1, fun j l hl => hroot j l hl ▸ hparts.2, ?_⟩
  rw [List.length_singleton, List.range_one, List.flatMap_singleton]
  refine hg.rows.trans (List.Perm.flatMap_left _ fun i hi => ?_)
  have hi := List.mem_range.mp hi
  have hperm := hg.sent_perm (fun _ h => by cases h) hi (by rw [hone i hi]; simp)
    (hg.feed hc hi (hout i hi)).2.2.2
  rw [hone i hi, List.length_singleton, List.range_one, List.flatMap_singleton] at hperm
  exact hperm.symm

end Gathered

end Deliver

end QueryCluster
