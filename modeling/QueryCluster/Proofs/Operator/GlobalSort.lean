import QueryCluster.Proofs.Graph.Run
import QueryCluster.Proofs.Operator.LocalSort
import QueryCluster.Proofs.Operator.Merge

/-!
# Sorting on many executors

Local sorts on any number of executors, each over its own part of the rows and with its own batch
size, send their keyed rows over the wire to one merge. If nothing fails, the merge writes a
permutation of all rows, and writes them in the order of the sort items.
-/
namespace QueryCluster

open Codec (lengthLimit)
open Split (InOrder)
open StreamWriter (Fits batches payload stream)

namespace OperatorNode

variable {n : OperatorNode} {w : Workplace} {arrival : List Nat} {inputs : List Feed}
  {output given : Schema}

/-- The one stream of a node that ends well. -/
theorem sent_single (hr : n.isRoot = false) (hx : ∃ x, (n.execute w arrival inputs 1).outcome = .ok x)
    (hs : (n.operator.run w arrival inputs).schema = some output) :
    ((n.execute w arrival inputs 1).sent[0]?).getD [] = stream output
      ((n.operator.run w arrival inputs).batchesTo 1 n.partitioning w.batchRows 0) := by
  obtain ⟨x, hx⟩ := hx
  obtain ⟨_, hsent⟩ := execute_ok hr Nat.one_pos hs hx
  rw [hsent]
  rfl

/-- What is read of it, if its reader ends well too. -/
theorem ofStream_sent (hr : n.isRoot = false) (hcounts : output.Counts)
    (hx : ∃ x, (n.execute w arrival inputs 1).outcome = .ok x)
    (hs : (n.operator.run w arrival inputs).schema = some output)
    (hu : ∀ s ∈ (n.operator.run w arrival inputs).splits, s.Under output)
    (hsizes : n.FramesWithin (lengthLimit - 1) w arrival inputs 1)
    (hended : (Feed.ofStream (.ofBytes
      (((n.execute w arrival inputs 1).sent[0]?).getD []))).Ended given) :
    Feed.ofStream (.ofBytes (((n.execute w arrival inputs 1).sent[0]?).getD [])) =
      { schema := .ok output
        splits := ((n.operator.run w arrival inputs).batchesTo 1 n.partitioning w.batchRows 0).map
          Split.undirected } := by
  have hbatches : ∀ b ∈ (n.operator.run w arrival inputs).batchesTo 1 n.partitioning w.batchRows 0,
      b.Under output := fun b hb => Emission.batchesTo_under hs hu hb
  rw [sent_single hr hx hs] at hended ⊢
  -- a frame beyond the payload limit would have been a fault of the feed
  exact Feed.ofStream_stream hbatches hcounts
    (Feed.fits_of_ofStream hbatches (hsizes output hs 0 Nat.one_pos) ⟨given, hended.schema_eq⟩
      hended.fault_eq)

end OperatorNode

/-- An executor that sorts some of the rows. -/
structure Sorter where
  workplace : Workplace
  arrival : List Nat
  feeds : List Feed
  location : Location

namespace Sorter

variable {items : List SortItem} {schema : Schema} {top : Location}

/-- A local sort that writes to a merge. -/
def node (items : List SortItem) (top : Location) (s : Sorter) : OperatorNode :=
  { location := s.location, outputs := [top], operator := .localSort items }

def execution (items : List SortItem) (top : Location) (s : Sorter) : Execution :=
  (s.node items top).execute s.workplace s.arrival s.feeds 1

/-- What the merge reads of a sorter. -/
def feed (items : List SortItem) (top : Location) (s : Sorter) : Feed :=
  Feed.ofStream (.ofBytes (((s.execution items top).sent[0]?).getD []))

/-- The stream of a sorter that ends well. -/
theorem feed_eq_ofStream {s : Sorter} (hx : ∃ x, (s.execution items top).outcome = .ok x)
    {output : Schema}
    (hs : ((Operator.localSort items).run s.workplace s.arrival s.feeds).schema = some output) :
    s.feed items top = Feed.ofStream (.ofBytes (stream output
      (((Operator.localSort items).run s.workplace s.arrival s.feeds).batchesTo 1 .single
        s.workplace.batchRows 0))) :=
  congrArg (fun bytes => Feed.ofStream (.ofBytes bytes)) (OperatorNode.sent_single rfl hx hs)

/-- What a merge that reads a sorter to its end has read. -/
theorem feed_ok {s : Sorter} {given : Schema} (hcolumns : schema.columns ≠ [])
    (hu : ∀ f ∈ s.feeds, f.Under schema)
    (hsizes : (s.node items top).FramesWithin (lengthLimit - 1) s.workplace s.arrival s.feeds 1)
    (hx : ∃ x, (s.execution items top).outcome = .ok x) (hended : (s.feed items top).Ended given) :
    given.columns = schema.columns ∧
      ∃ rows keyed, rows.Perm (Feed.rows s.feeds) ∧ Keyed schema items rows keyed ∧
        (rowsOf (s.feed items top).splits).Perm keyed ∧
        (Unmixed schema items rows →
          InOrder (placedKeys (directionsOf items)) (rowsOf (s.feed items top).splits)) := by
  obtain ⟨⟨stats, result⟩, hout⟩ := hx
  obtain ⟨output, hkeys, hs, hunder, rows, keyed, hperm, hkeyed, hwritten, horder⟩ :=
    localSort_run_ok hu (OperatorNode.outcome_of_execute hout)
  have houtput := (keySchema_ok hkeys).1
  have hfeed : s.feed items top = _ :=
    (s.node items top).ofStream_sent rfl (.inl (houtput ▸ hcolumns)) ⟨_, hout⟩ hs hunder hsizes hended
  have hrows : rowsOf (s.feed items top).splits =
      rowsOf ((Operator.localSort items).run s.workplace s.arrival s.feeds).splits := by
    rw [hfeed]
    exact (rowsOf_undirected _).trans (Emission.rowsOf_batchesTo_single hs)
  refine ⟨?_, rows, keyed, hperm, hkeyed, hrows ▸ hwritten, fun hmix => hrows ▸ horder hmix⟩
  obtain rfl : output = given := Except.ok.inj ((congrArg Feed.schema hfeed).symm.trans hended.schema_eq)
  exact houtput

end Sorter

/-- The rows of many sorters and what they made of them. -/
theorem sorters_ok {items : List SortItem} {schema given : Schema} {top : Location}
    {sorters : List Sorter} (hcolumns : schema.columns ≠ [])
    (hu : ∀ s ∈ sorters, ∀ f ∈ s.feeds, f.Under schema)
    (hsizes : ∀ s ∈ sorters,
      (s.node items top).FramesWithin (lengthLimit - 1) s.workplace s.arrival s.feeds 1)
    (hx : ∀ s ∈ sorters, ∃ x, (s.execution items top).outcome = .ok x)
    (hended : ∀ s ∈ sorters, (s.feed items top).Ended given)
    (hmix : Unmixed schema items (Feed.rows (sorters.flatMap (·.feeds)))) :
    ∃ rows keyed, rows.Perm (Feed.rows (sorters.flatMap (·.feeds))) ∧
      Keyed schema items rows keyed ∧
      (sorters.flatMap fun s => rowsOf (s.feed items top).splits).Perm keyed ∧
      ∀ s ∈ sorters,
        InOrder (placedKeys (directionsOf items)) (rowsOf (s.feed items top).splits) := by
  induction sorters with
  | nil => exact ⟨[], [], .refl _, .nil, .refl _, by simp⟩
  | cons s sorters ih =>
    have hs := List.mem_cons_self (a := s) (l := sorters)
    have hall : Feed.rows ((s :: sorters).flatMap (·.feeds)) =
        Feed.rows s.feeds ++ Feed.rows (sorters.flatMap (·.feeds)) := by
      simp [Feed.rows]
    rw [hall] at hmix ⊢
    obtain ⟨_, rows, keyed, hperm, hkeyed, hwritten, horder⟩ := Sorter.feed_ok hcolumns (hu s hs)
      (hsizes s hs) (hx s hs) (hended s hs)
    obtain ⟨rest, keyedRest, hpermRest, hkeyedRest, hwrittenRest, horderRest⟩ := ih
      (fun t ht => hu t (List.mem_cons_of_mem s ht))
      (fun t ht => hsizes t (List.mem_cons_of_mem s ht))
      (fun t ht => hx t (List.mem_cons_of_mem s ht))
      (fun t ht => hended t (List.mem_cons_of_mem s ht))
      (hmix.mono fun r hr => List.mem_append_right _ hr)
    refine ⟨rows ++ rest, keyed ++ keyedRest, hperm.append hpermRest,
      List.rel_append hkeyed hkeyedRest, hwritten.append hwrittenRest, ?_⟩
    refine List.forall_mem_cons.mpr ⟨horder ?_, horderRest⟩
    exact hmix.mono fun r hr => List.mem_append_left _ (hperm.mem_iff.mp hr)

/-- What a merge makes of its sorters. -/
theorem merge_sorters_ok {items : List SortItem} {schema : Schema} {top : Location}
    {sorters : List Sorter} {w : Workplace} {arrival : List Nat} {stats : Stats}
    (hcolumns : schema.columns ≠ [])
    (hu : ∀ s ∈ sorters, ∀ f ∈ s.feeds, f.Under schema)
    (hmix : Unmixed schema items (Feed.rows (sorters.flatMap (·.feeds))))
    (hsizes : ∀ s ∈ sorters,
      (s.node items top).FramesWithin (lengthLimit - 1) s.workplace s.arrival s.feeds 1)
    (hx : ∀ s ∈ sorters, ∃ x, (s.execution items top).outcome = .ok x)
    (hmerge : ((Operator.merge items).run w arrival (sorters.map (·.feed items top))).outcome =
      .ok stats) :
    (rowsOf ((Operator.merge items).run w arrival (sorters.map (·.feed items top))).splits).Perm
        ((Feed.rows (sorters.flatMap (·.feeds))).map Row.withoutKeys) ∧
      ∃ keyed,
        (rowsOf ((Operator.merge items).run w arrival (sorters.map (·.feed items top))).splits).mapM
          (keyRow schema items) = .ok keyed ∧
        InOrder (compareKeys (directionsOf items)) keyed := by
  obtain ⟨given, hfeeds, _, _, taken, hwritten, hperm, horder⟩ := runMerge_ok hmerge
  have hended : ∀ s ∈ sorters, (s.feed items top).Ended given := fun s hs =>
    (hfeeds _ (List.mem_map_of_mem hs)).1
  obtain ⟨rows, keyed, hrows, hkeyed, hsent, hsorted⟩ :=
    sorters_ok hcolumns hu hsizes hx hended hmix
  rw [List.flatMap_map] at hperm horder
  have htaken : taken.Perm keyed := hperm.trans hsent
  have hplaces := hkeyed.compareKeys_eq (hmix.mono fun r hr => hrows.mem_iff.mp hr)
    (directionsOf items)
  have hout : rowsOf ((Operator.merge items).run w arrival (sorters.map (·.feed items top))).splits =
      taken.map Row.withoutKeys := hwritten
  have hinorder : InOrder (placedKeys (directionsOf items)) taken := by
    refine horder _ (fun a ha b hb => hplaces a (hsent.mem_iff.mp ha) b (hsent.mem_iff.mp hb)) ?_
    intro f hf
    obtain ⟨s, hs, rfl⟩ := List.mem_map.mp hf
    exact hsorted s hs
  rw [hout]
  refine ⟨?_, taken, mapM_eq_ok ?_, ?_⟩
  · have := htaken.map Row.withoutKeys
    rw [hkeyed.withoutKeys] at this
    exact this.trans (hrows.map Row.withoutKeys)
  · refine List.forall₂_map_left_iff.mpr (List.forall₂_same.mpr fun k hk => ?_)
    obtain ⟨r, _, hr⟩ := hkeyed.exists_of_mem (htaken.mem_iff.mp hk)
    exact keyRow_withoutKeys hr
  · refine List.Pairwise.imp_of_mem ?_ hinorder
    intro a b ha hb hle
    rw [hplaces a (htaken.mem_iff.mp ha) b (htaken.mem_iff.mp hb)]
    exact hle

/-- An absent key stands before null and null before every other value. -/
theorem compareKey_absent_null (d : Direction) {v : Value} (hv : v ≠ .null) :
    compareKey d none (some .null) = d.apply .lt ∧
      compareKey d (some .null) (some v) = d.apply .lt := by
  refine ⟨rfl, ?_⟩
  cases v <;> first | exact absurd rfl hv | rfl

/-- The merge of sorted streams gives all rows, ordered by their sort items. -/
theorem merged_rows_sorted {items : List SortItem} {schema : Schema} {top : Location}
    {sorters : List Sorter} {w : Workplace} {arrival : List Nat} {stats : Stats}
    (hcolumns : schema.columns ≠ [])
    (hu : ∀ s ∈ sorters, ∀ f ∈ s.feeds, f.Under schema)
    (hmix : Unmixed schema items (Feed.rows (sorters.flatMap (·.feeds))))
    (hsizes : ∀ s ∈ sorters,
      (s.node items top).FramesWithin (lengthLimit - 1) s.workplace s.arrival s.feeds 1)
    (hx : ∀ s ∈ sorters, ∃ x, (s.execution items top).outcome = .ok x)
    (hmerge : ((Operator.merge items).run w arrival (sorters.map (·.feed items top))).outcome =
      .ok stats) :
    (rowsOf ((Operator.merge items).run w arrival (sorters.map (·.feed items top))).splits).Perm
        ((Feed.rows (sorters.flatMap (·.feeds))).map Row.withoutKeys) ∧
      ∃ keyed,
        (rowsOf ((Operator.merge items).run w arrival (sorters.map (·.feed items top))).splits).mapM
          (keyRow schema items) = .ok keyed ∧
        InOrder (compareKeys (directionsOf items)) keyed ∧
        ∀ d v, v ≠ Value.null → compareKey d none (some .null) = d.apply .lt ∧
          compareKey d (some .null) (some v) = d.apply .lt := by
  obtain ⟨hperm, keyed, hkeyed, horder⟩ := merge_sorters_ok hcolumns hu hmix hsizes hx hmerge
  exact ⟨hperm, keyed, hkeyed, horder, fun d v => compareKey_absent_null d⟩

section Numbers

def numbers : Schema := { columns := [⟨"n", .int64⟩] }

def byNumber : List SortItem := [⟨.column "n", .ascending⟩]

def numberRow (n : Int64) : Row := { values := [.int64 n] }

def keyedNumber (n : Int64) : Row := Row.withKeys [.int64 n] [some (.int64 n)]

def mergeTop : Location := ⟨"top", "host", 1⟩

/-- A workplace without tables. -/
def emptyWorkplace (batchRows : Nat) : Workplace :=
  ⟨{ partitionCount := fun _ => .ok 0, read := fun _ _ _ => .ok [] }, batchRows, none⟩

def numberSorter (name : String) (batchRows : Nat) (ns : List Int64) : Sorter where
  workplace := emptyWorkplace batchRows
  arrival := []
  feeds := [.ofSplits numbers [{ schema := numbers, rows := ns.map numberRow }]]
  location := ⟨name, "host", 2⟩

def sortedNumbers (ns : List Int64) : Split :=
  { schema := numbers.addKey .int64, rows := ns.map keyedNumber, orders := [.ascending] }

def numberSorters : List Sorter := [numberSorter "a" 2 [3, 1], numberSorter "b" 3 [2]]

theorem numberSorter_under (name : String) (batchRows : Nat) (ns : List Int64) :
    ∀ f ∈ (numberSorter name batchRows ns).feeds, f.Under numbers := by
  refine List.forall_mem_singleton.mpr ⟨fun s h => (Except.ok.inj h).symm, ?_⟩
  refine List.forall_mem_singleton.mpr ⟨rfl, fun r hr => ?_⟩
  obtain ⟨n, _, rfl⟩ := List.mem_map.mp hr
  exact ⟨rfl, rfl, rfl⟩

theorem numbers_unmixed : Unmixed numbers byNumber ([3, 1, 2].map numberRow) := by
  have heval : ∀ i ∈ byNumber, ∀ r ∈ ([3, 1, 2] : List Int64).map numberRow, ∀ x,
      i.expr.eval numbers r.values = .ok (some x) → ∃ n, x = .int64 n := by
    intro i hi r hr x hx
    obtain ⟨n, _, rfl⟩ := List.mem_map.mp hr
    rw [List.mem_singleton.mp hi] at hx
    exact ⟨n, (Option.some.inj (Except.ok.inj hx)).symm⟩
  intro i hi a ha b hb x y hx hy
  obtain ⟨m, rfl⟩ := heval i hi a ha x hx
  obtain ⟨n, rfl⟩ := heval i hi b hb y hy
  simp [Value.Mixed, Value.isReal]

/-- What a sorter sends if its rows fit one batch. -/
theorem numberSorter_sends {name : String} {batchRows : Nat} {ns : List Int64} (sorted : List Int64)
    (hx : ∃ x, ((numberSorter name batchRows ns).execution byNumber mergeTop).outcome = .ok x)
    (hs : ((Operator.localSort byNumber).run (emptyWorkplace batchRows) []
      (numberSorter name batchRows ns).feeds).schema = some (numbers.addKey .int64))
    (hb : ((Operator.localSort byNumber).run (emptyWorkplace batchRows) []
      (numberSorter name batchRows ns).feeds).batchesTo 1 .single batchRows 0 =
        batches (sortedNumbers sorted) batchRows ++ [])
    (hrows : 0 < sorted.length) (hle : sorted.length ≤ batchRows)
    (hfit : (payload (sortedNumbers sorted)).length ≤ maxPayload) :
    ((numberSorter name batchRows ns).node byNumber mergeTop).FramesWithin (lengthLimit - 1)
        (emptyWorkplace batchRows) [] (numberSorter name batchRows ns).feeds 1 ∧
      (numberSorter name batchRows ns).feed byNumber mergeTop =
        .ofSplits (numbers.addKey .int64) [(sortedNumbers sorted).undirected] := by
  have hone : batches (sortedNumbers sorted) batchRows = [sortedNumbers sorted] :=
    StreamWriter.batches_of_le (by simpa [sortedNumbers, Split.rowCount] using hrows)
      (by simpa [sortedNumbers, Split.rowCount] using hle)
  rw [hone, List.append_nil] at hb
  have hfits : Fits maxPayload (numbers.addKey .int64) [sortedNumbers sorted] :=
    ⟨by decide +kernel, List.forall_mem_singleton.mpr hfit⟩
  refine ⟨fun schema hschema i hi => ?_, ?_⟩
  · obtain rfl : numbers.addKey .int64 = schema := Option.some.inj (hs.symm.trans hschema)
    obtain rfl : i = 0 := by omega
    have hle : maxPayload ≤ lengthLimit - 1 := by decide
    refine ⟨Nat.le_trans hfits.schema hle, fun s hmem => ?_⟩
    have hmem : s ∈ ((Operator.localSort byNumber).run (emptyWorkplace batchRows) []
      (numberSorter name batchRows ns).feeds).batchesTo 1 .single batchRows 0 := hmem
    rw [hb] at hmem
    exact Nat.le_trans (hfits.batches s hmem) hle
  · have hunder : ∀ s ∈ [sortedNumbers sorted], s.Under (numbers.addKey .int64) := by
      refine List.forall_mem_singleton.mpr ⟨rfl, fun r hr => ?_⟩
      obtain ⟨n, _, rfl⟩ := List.mem_map.mp hr
      exact ⟨rfl, rfl, rfl⟩
    refine (Sorter.feed_eq_ofStream hx hs).trans ?_
    have hb' : ((Operator.localSort byNumber).run (numberSorter name batchRows ns).workplace
      (numberSorter name batchRows ns).arrival (numberSorter name batchRows ns).feeds).batchesTo 1
        .single (numberSorter name batchRows ns).workplace.batchRows 0 = [sortedNumbers sorted] := hb
    rw [hb', Feed.ofStream_stream hunder (.inl (by simp [numbers, Schema.addKey])) hfits]
    rfl

theorem numberSorters_ok :
    (∀ s ∈ numberSorters, ∀ f ∈ s.feeds, f.Under numbers) ∧
      (∀ s ∈ numberSorters, ∃ x, (s.execution byNumber mergeTop).outcome = .ok x) ∧
      (∀ s ∈ numberSorters, (s.node byNumber mergeTop).FramesWithin (lengthLimit - 1) s.workplace
        s.arrival s.feeds 1) ∧
      numberSorters.map (·.feed byNumber mergeTop) =
        [.ofSplits (numbers.addKey .int64) [(sortedNumbers [1, 3]).undirected],
          .ofSplits (numbers.addKey .int64) [(sortedNumbers [2]).undirected]] := by
  have hx : ∀ s ∈ numberSorters, ∃ x, (s.execution byNumber mergeTop).outcome = .ok x :=
    List.forall_mem_cons.mpr ⟨⟨_, rfl⟩, List.forall_mem_singleton.mpr ⟨_, rfl⟩⟩
  have ha := numberSorter_sends [1, 3] (hx (numberSorter "a" 2 [3, 1]) (.head _)) rfl rfl
    (by decide) (by decide) (by decide +kernel)
  have hb := numberSorter_sends [2] (hx (numberSorter "b" 3 [2]) (.tail _ (.head _))) rfl
    rfl (by decide) (by decide) (by decide +kernel)
  refine ⟨?_, hx, List.forall_mem_cons.mpr ⟨ha.1, List.forall_mem_singleton.mpr hb.1⟩, ?_⟩
  · exact List.forall_mem_cons.mpr ⟨numberSorter_under _ _ _, List.forall_mem_singleton.mpr
      (numberSorter_under _ _ _)⟩
  · rw [numberSorters, List.map_cons, List.map_singleton, ha.2, hb.2]

/-- Two sorters, one of which has two rows in the wrong order. -/
theorem merged_rows_sorted_numbers :
    (rowsOf ((Operator.merge byNumber).run (emptyWorkplace 4) []
        (numberSorters.map (·.feed byNumber mergeTop))).splits).Perm ([3, 1, 2].map numberRow) ∧
      ∃ keyed, (rowsOf ((Operator.merge byNumber).run (emptyWorkplace 4) []
          (numberSorters.map (·.feed byNumber mergeTop))).splits).mapM (keyRow numbers byNumber) =
            .ok keyed ∧ InOrder (compareKeys [.ascending]) keyed := by
  obtain ⟨hu, hx, hsizes, hfeeds⟩ := numberSorters_ok
  have hmerge : ((Operator.merge byNumber).run (emptyWorkplace 4) []
      (numberSorters.map (·.feed byNumber mergeTop))).outcome = .ok ⟨3, 3⟩ := by
    rw [hfeeds]
    rfl
  obtain ⟨hperm, keyed, hkeyed, horder, _⟩ := merged_rows_sorted
    (by simp [numbers] : numbers.columns ≠ []) hu numbers_unmixed hsizes hx hmerge
  exact ⟨hperm, keyed, hkeyed, horder⟩

end Numbers

end QueryCluster
