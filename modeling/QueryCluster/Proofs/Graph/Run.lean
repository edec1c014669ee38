import QueryCluster.Graph.Run
import QueryCluster.Proofs.Operator.Routing
import QueryCluster.Proofs.Outcome

/-!
# A run as a solution of the graph

If no node reads from itself or from a later one and names tell nodes apart, the streams at the end
of a run solve the graph: each node, executed over what the final streams bring it, ends well, and
each stream is what its source sends there. So what is said about a run need not follow its order.
-/
namespace QueryCluster

namespace Progress

/-- What was sent from one executor to another. -/
def sent (p : Progress) (source target : String) : Option Bytes :=
  (p.wires.find? fun w => w.source == source && w.target == target).map (·.bytes)

/-- What an executor reads of another. -/
def feed (p : Progress) (source target : String) : Feed :=
  Feed.ofStream (.ofBytes ((p.sent source target).getD []))

end Progress

namespace OperatorNode

theorem feeds_eq (n : OperatorNode) (p : Progress) :
    n.feeds p.wires = n.inputs.map fun l => p.feed l.name n.location.name := rfl

/-- A node is executed over what the streams of some progress bring it. -/
def executionIn (w : Workplace) (arrival : List Nat) (p : Progress) (n : OperatorNode) : Execution :=
  n.execute w arrival (n.feeds p.wires) n.outputs.length

/-- The streams of a node and of those it reads from fit together. -/
structure Solved (w : Workplace) (arrival : List Nat) (p : Progress) (n : OperatorNode) : Prop where
  outcome : ∃ x, (n.executionIn w arrival p).outcome = .ok x
  sent : ∀ (j : Nat) (l : Location), n.outputs[j]? = some l →
    p.sent n.location.name l.name = (n.executionIn w arrival p).sent[j]?

end OperatorNode

/-- Nodes that stand behind all they read from, with names that tell them apart. -/
structure Arranged (ns : List OperatorNode) : Prop where
  names : ns.Pairwise fun n m => n.location.name ≠ m.location.name
  inputs : ns.Pairwise fun n m => ∀ l ∈ n.inputs, l.name ≠ m.location.name
  self : ∀ n ∈ ns, ∀ l ∈ n.inputs, l.name ≠ n.location.name
  outputs : ∀ n ∈ ns, (n.outputs.map (·.name)).Nodup

section Run

variable {w : Workplace} {arrivals : OperatorNode → List Nat} {p p' : Progress}

theorem runIn_ok {arrival : List Nat} {n : OperatorNode} (h : n.runIn w arrival p = .ok p') :
    ∃ stats rows, (n.executionIn w arrival p).outcome = .ok (stats, rows) ∧
      p'.wires = p.wires ++ n.outputs.zipWith (fun l bytes => ⟨n.location.name, l.name, bytes⟩)
        (n.executionIn w arrival p).sent ∧ p'.result = rows.or p.result := by
  obtain ⟨⟨stats, rows⟩, hout, rfl⟩ := map_ok h
  exact ⟨stats, rows, hout, rfl, rfl⟩

theorem find?_zipWith {source target : String} {outputs : List Location} {sent : List Bytes}
    (hn : (outputs.map (·.name)).Nodup) {j : Nat} {l : Location} (hl : outputs[j]? = some l)
    (ht : l.name = target) :
    ((outputs.zipWith (fun l bytes => (⟨source, l.name, bytes⟩ : Wire)) sent).find?
      fun w => w.source == source && w.target == target).map (·.bytes) = sent[j]? := by
  induction outputs generalizing sent j with
  | nil => cases hl
  | cons o outputs ih =>
    cases sent with
    | nil => rfl
    | cons b sent =>
      rw [List.zipWith_cons_cons]
      cases j with
      | zero =>
        obtain rfl : o = l := Option.some.inj hl
        simp [ht]
      | succ j =>
        obtain ⟨hnot, hn⟩ := List.nodup_cons.mp hn
        have hl : outputs[j]? = some l := by simpa using hl
        have hne : o.name ≠ target := fun h => hnot (List.mem_map.mpr
          ⟨l, List.mem_of_getElem? hl, ht.trans h.symm⟩)
        rw [List.find?_cons_of_neg (by simp [hne])]
        simpa using ih hn hl

theorem source_of_mem_zipWith {source : String} {outputs : List Location} {sent : List Bytes}
    {x : Wire} (h : x ∈ outputs.zipWith (fun l bytes => (⟨source, l.name, bytes⟩ : Wire)) sent) :
    x.source = source := by
  rw [← List.map_uncurry_zip_eq_zipWith] at h
  obtain ⟨⟨l, b⟩, _, rfl⟩ := List.mem_map.mp h
  rfl

theorem find?_zipWith_of_ne {source other target : String} (h : other ≠ source)
    (outputs : List Location) (sent : List Bytes) :
    ((outputs.zipWith (fun l bytes => (⟨other, l.name, bytes⟩ : Wire)) sent).find?
      fun w => w.source == source && w.target == target) = none := by
  refine List.find?_eq_none.mpr fun x hx => ?_
  simp [source_of_mem_zipWith hx, h]

/-- A node writes only streams of its own. -/
theorem sent_runIn_of_ne {arrival : List Nat} {n : OperatorNode} (h : n.runIn w arrival p = .ok p')
    {source target : String} (hs : n.location.name ≠ source) :
    p'.sent source target = p.sent source target := by
  obtain ⟨_, _, _, hwires, _⟩ := runIn_ok h
  rw [Progress.sent, hwires, List.find?_append, find?_zipWith_of_ne hs, Option.or_none]
  rfl

theorem sent_runIn {arrival : List Nat} {n : OperatorNode} (h : n.runIn w arrival p = .ok p')
    (hfresh : ∀ x ∈ p.wires, x.source ≠ n.location.name) (hn : (n.outputs.map (·.name)).Nodup)
    {j : Nat} {l : Location} (hl : n.outputs[j]? = some l) :
    p'.sent n.location.name l.name = (n.executionIn w arrival p).sent[j]? := by
  obtain ⟨_, _, _, hwires, _⟩ := runIn_ok h
  have hnone : (p.wires.find? fun w => w.source == n.location.name && w.target == l.name) = none :=
    List.find?_eq_none.mpr fun x hx => by simp [hfresh x hx]
  rw [Progress.sent, hwires, List.find?_append, hnone, Option.none_or]
  exact find?_zipWith hn hl rfl

theorem runNodes_cons {n : OperatorNode} {ns : List OperatorNode}
    (h : runNodes w arrivals p (n :: ns) = (p', none)) :
    ∃ q, n.runIn w (arrivals n) p = .ok q ∧ runNodes w arrivals q ns = (p', none) := by
  rw [runNodes] at h
  rcases hn : n.runIn w (arrivals n) p with e | q
  · rw [hn] at h
    cases h
  · rw [hn] at h
    exact ⟨q, rfl, h⟩

theorem sent_runNodes {ns : List OperatorNode} (h : runNodes w arrivals p ns = (p', none))
    {source target : String} (hs : ∀ n ∈ ns, n.location.name ≠ source) :
    p'.sent source target = p.sent source target := by
  induction ns generalizing p with
  | nil =>
    cases h
    rfl
  | cons n ns ih =>
    obtain ⟨q, hq, h⟩ := runNodes_cons h
    rw [ih h fun m hm => hs m (List.mem_cons_of_mem n hm),
      sent_runIn_of_ne hq (hs n List.mem_cons_self)]

/-- What a node reads stands already when it runs. -/
theorem feeds_congr {n : OperatorNode} (h : ∀ l ∈ n.inputs, p'.sent l.name n.location.name =
    p.sent l.name n.location.name) : n.feeds p'.wires = n.feeds p.wires := by
  rw [n.feeds_eq, n.feeds_eq]
  refine List.map_congr_left fun l hl => ?_
  rw [Progress.feed, Progress.feed, h l hl]

theorem source_of_runIn {arrival : List Nat} {n : OperatorNode} (h : n.runIn w arrival p = .ok p')
    {x : Wire} (hx : x ∈ p'.wires) : x ∈ p.wires ∨ x.source = n.location.name := by
  obtain ⟨_, _, _, hwires, _⟩ := runIn_ok h
  rw [hwires] at hx
  rcases List.mem_append.mp hx with hx | hx
  · exact .inl hx
  · exact .inr (source_of_mem_zipWith hx)

/-- At the end of a run without a failure the streams solve all nodes. -/
theorem runNodes_solved {ns : List OperatorNode} (ha : Arranged ns)
    (hfresh : ∀ x ∈ p.wires, ∀ n ∈ ns, x.source ≠ n.location.name)
    (h : runNodes w arrivals p ns = (p', none)) : ∀ n ∈ ns, n.Solved w (arrivals n) p' := by
  induction ns generalizing p with
  | nil => simp
  | cons n ns ih =>
    obtain ⟨q, hq, hrest⟩ := runNodes_cons h
    obtain ⟨hname, hnames⟩ := List.pairwise_cons.mp ha.names
    obtain ⟨hinput, hinputs⟩ := List.pairwise_cons.mp ha.inputs
    have hn := List.mem_cons_self (a := n) (l := ns)
    have hfeeds : n.feeds p'.wires = n.feeds p.wires := by
      refine feeds_congr fun l hl => ?_
      rw [sent_runNodes hrest fun m hm => (hinput m hm l hl).symm,
        sent_runIn_of_ne hq (ha.self n hn l hl).symm]
    have hexec : n.executionIn w (arrivals n) p' = n.executionIn w (arrivals n) p := by
      rw [OperatorNode.executionIn, hfeeds]
      rfl
    refine List.forall_mem_cons.mpr ⟨⟨?_, fun j l hl => ?_⟩, ?_⟩
    · obtain ⟨stats, rows, hout, _⟩ := runIn_ok hq
      exact ⟨_, hexec ▸ hout⟩
    · rw [hexec, sent_runNodes hrest fun m hm => (hname m hm).symm,
        sent_runIn hq (fun x hx => hfresh x hx n hn) (ha.outputs n hn) hl]
    · refine ih ⟨hnames, hinputs, fun m hm => ha.self m (List.mem_cons_of_mem n hm),
        fun m hm => ha.outputs m (List.mem_cons_of_mem n hm)⟩ (fun x hx m hm => ?_) hrest
      rcases source_of_runIn hq hx with hx | hx
      · exact hfresh x hx m (List.mem_cons_of_mem n hm)
      · rw [hx]
        exact hname m hm

theorem runNodes_append {ms ns : List OperatorNode}
    (h : runNodes w arrivals p (ms ++ ns) = (p', none)) :
    ∃ q, runNodes w arrivals p ms = (q, none) ∧ runNodes w arrivals q ns = (p', none) := by
  induction ms generalizing p with
  | nil => exact ⟨p, rfl, h⟩
  | cons m ms ih =>
    obtain ⟨q, hq, h⟩ := runNodes_cons h
    obtain ⟨q', hms, hns⟩ := ih h
    refine ⟨q', ?_, hns⟩
    rw [runNodes, hq]
    exact hms

/-- A run without a failure, told by looking for one only. -/
theorem Graph.run_clear {g : Graph} (h : (g.run w arrivals).2.isNone) :
    g.run w arrivals = ((g.run w arrivals).1, none) :=
  Prod.ext rfl (Option.isNone_iff_eq_none.mp h)

/-- The last node leaves the result, if it has one. -/
theorem result_of_last {ms : List OperatorNode} {n : OperatorNode} (ha : Arranged (ms ++ [n]))
    (h : runNodes w arrivals p (ms ++ [n]) = (p', none)) :
    ∃ stats rows, (n.executionIn w (arrivals n) p').outcome = .ok (stats, rows) ∧
      ∀ all, rows = some all → p'.result = some all := by
  obtain ⟨q, _, hlast⟩ := runNodes_append h
  obtain ⟨q', hq, hend⟩ := runNodes_cons hlast
  cases hend
  obtain ⟨stats, rows, hout, _, hresult⟩ := runIn_ok hq
  have hfeeds : n.feeds p'.wires = n.feeds q.wires := feeds_congr fun l hl =>
    sent_runIn_of_ne hq (ha.self n (List.mem_append_right _ (List.mem_singleton_self n)) l hl).symm
  refine ⟨stats, rows, ?_, fun all hall => ?_⟩
  · rw [OperatorNode.executionIn, hfeeds]
    exact hout
  · rw [hresult, hall, Option.some_or]

end Run

/-!
## What an executed node leaves behind

A node that ends well ran its operator to a good end. A root keeps all rows the operator wrote; any
other node leaves one complete stream for each of its outputs.
-/

open StreamWriter (Fits stream)

namespace Emission

theorem outcome_of_send {e : Emission} {r r' : Router} {stats : Stats}
    (h : e.send r = (.ok stats, r')) : e.outcome = .ok stats := by
  rw [send] at h
  simp only at h
  split at h
  · cases h
  split at h
  · cases h
  · cases h
  · rename_i hout
    split at h
    · cases h
    · rw [hout]
      cases h
      rfl

theorem foldlM_writeSplit_ok {splits : List Split} {c c' : Collector} (all : Split)
    (hc : c.result = some all) (h : splits.foldlM Collector.writeSplit c = .ok c') :
    c'.result = some { all with rows := all.rows ++ rowsOf splits } ∧
      ∀ s ∈ splits, s.Shaped all.schema := by
  induction splits generalizing c all with
  | nil =>
    cases h
    simp [hc]
  | cons s splits ih =>
    rw [List.foldlM_cons] at h
    obtain ⟨d, hd, h⟩ := bind_ok h
    rw [Collector.writeSplit, hc] at hd
    obtain ⟨more, hmore, rfl⟩ := map_ok hd
    obtain ⟨hs, rfl⟩ := Split.append_eq_ok.mp (mapError_ok hmore)
    obtain ⟨hresult, hrest⟩ := ih _ rfl h
    rw [hresult, rowsOf_cons, List.append_assoc]
    exact ⟨rfl, List.forall_mem_cons.mpr ⟨hs, hrest⟩⟩

/-- What a root keeps. -/
theorem collect_ok {e : Emission} {stats : Stats} {all : Split} (h : e.collect = .ok (stats, all)) :
    e.outcome = .ok stats ∧ e.schema = some all.schema ∧ all.rows = rowsOf e.splits ∧
      ∀ s ∈ e.splits, s.Shaped all.schema := by
  obtain ⟨c, hc, h⟩ := bind_ok h
  obtain ⟨stats', hstats, h⟩ := bind_ok h
  cases hs : e.schema with
  | some schema =>
    rw [hs] at hc
    obtain ⟨hresult, hshaped⟩ := foldlM_writeSplit_ok { schema } rfl hc
    simp only [hresult] at h
    cases h
    exact ⟨hstats, rfl, List.nil_append _, hshaped⟩
  | none =>
    rw [hs] at hc
    cases hsplits : e.splits with
    | nil =>
      rw [hsplits] at hc
      cases hc
      cases h
    | cons s splits =>
      rw [hsplits, List.foldlM_cons] at hc
      obtain ⟨d, hd, _⟩ := bind_ok hc
      cases hd

end Emission

namespace OperatorNode

variable {w : Workplace} {arrival : List Nat} {inputs : List Feed} {outputs : Nat}
  {n : OperatorNode}

/-- Every frame that a node writes has a payload within a limit. -/
def FramesWithin (limit : Nat) (w : Workplace) (arrival : List Nat) (inputs : List Feed)
    (outputs : Nat) (n : OperatorNode) : Prop :=
  ∀ schema, (n.operator.run w arrival inputs).schema = some schema → ∀ i < outputs,
    Fits limit schema
      ((n.operator.run w arrival inputs).batchesTo outputs n.partitioning w.batchRows i)

instance {limit : Nat} : Decidable (n.FramesWithin limit w arrival inputs outputs) :=
  decidable_of_iff (∀ schema ∈ (n.operator.run w arrival inputs).schema, ∀ i < outputs,
    Fits limit schema
      ((n.operator.run w arrival inputs).batchesTo outputs n.partitioning w.batchRows i)) Iff.rfl

theorem outcome_of_execute {stats : Stats} {rows : Option Split}
    (h : (n.execute w arrival inputs outputs).outcome = .ok (stats, rows)) :
    (n.operator.run w arrival inputs).outcome = .ok stats := by
  rw [execute] at h
  by_cases hr : n.isRoot
  · simp only [hr, if_true] at h
    obtain ⟨⟨stats', all⟩, hcollect, h⟩ := map_ok h
    cases h
    exact (Emission.collect_ok hcollect).1
  · simp only [hr] at h
    rcases hs : (n.operator.run w arrival inputs).send (n.router w.batchRows outputs) with ⟨o, r⟩
    rw [hs] at h
    obtain ⟨stats', ho, h⟩ := map_ok h
    cases h
    have ho : o = .ok stats := ho
    rw [ho] at hs
    exact Emission.outcome_of_send hs

theorem root_execute_ok (hr : n.isRoot) {stats : Stats} {rows : Option Split}
    (h : (n.execute w arrival inputs outputs).outcome = .ok (stats, rows)) :
    ∃ all, rows = some all ∧ (n.operator.run w arrival inputs).schema = some all.schema ∧
      all.rows = rowsOf (n.operator.run w arrival inputs).splits := by
  simp only [execute, hr, if_true] at h
  obtain ⟨⟨stats', all⟩, hcollect, h⟩ := map_ok h
  cases h
  obtain ⟨_, hschema, hrows, _⟩ := Emission.collect_ok hcollect
  exact ⟨all, rfl, hschema, hrows⟩

theorem execute_ok (hr : n.isRoot = false) (ho : 0 < outputs) {schema : Schema}
    (hs : (n.operator.run w arrival inputs).schema = some schema) {x : Stats × Option Split}
    (h : (n.execute w arrival inputs outputs).outcome = .ok x) :
    (∃ keyColumns, Router.columnsOf n.partitioning schema = .ok keyColumns) ∧
      (n.execute w arrival inputs outputs).sent = (List.range outputs).map fun i => stream schema
        ((n.operator.run w arrival inputs).batchesTo outputs n.partitioning w.batchRows i) := by
  rcases hsend : (n.operator.run w arrival inputs).send (n.router w.batchRows outputs) with ⟨o, r⟩
  have hexec : n.execute w arrival inputs outputs =
      ⟨o.map (·, none), r.outputs.map (·.sent)⟩ := by
    rw [execute, hr, hsend]
    rfl
  rw [hexec] at h ⊢
  obtain ⟨stats, rfl, _⟩ := map_ok h
  exact (Emission.send_ok hs ho hsend).2

end OperatorNode
end QueryCluster
