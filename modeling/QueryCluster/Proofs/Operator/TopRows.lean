import QueryCluster.Proofs.Operator.Batching
import QueryCluster.Proofs.Operator.Faults

/-!
# A limit behind a sort

A limit reads all of its input and writes as many of its first rows as it is to. Behind a merge of
sorted parts these are least rows: none that it drops stands before one that it writes, whichever
executor had sorted them.
-/
namespace QueryCluster

open Codec (lengthLimit)
open Split (InOrder)
open StreamWriter (Fits)

/-- An executor that merges what sorters send to it. -/
structure Merger where
  workplace : Workplace
  arrival : List Nat
  sorters : List Sorter
  location : Location

namespace Merger

variable {items : List SortItem} {schema : Schema} {bottom : Location} {m : Merger}

/-- A merge that writes to a limit. -/
def node (items : List SortItem) (bottom : Location) (m : Merger) : OperatorNode :=
  { location := m.location, outputs := [bottom], operator := .merge items }

def feeds (items : List SortItem) (m : Merger) : List Feed :=
  m.sorters.map (·.feed items m.location)

def execution (items : List SortItem) (bottom : Location) (m : Merger) : Execution :=
  (m.node items bottom).execute m.workplace m.arrival (m.feeds items) 1

/-- What the limit reads of a merge. -/
def feed (items : List SortItem) (bottom : Location) (m : Merger) : Feed :=
  Feed.ofStream (.ofBytes (((m.execution items bottom).sent[0]?).getD []))

/-- All rows that reach the sorters. -/
def rows (m : Merger) : List Row := Feed.rows (m.sorters.flatMap (·.feeds))

/-- The merge and its sorters have come to a good end, and every frame has a length that its field
can hold. -/
structure Succeeds (items : List SortItem) (schema : Schema) (bottom : Location) (m : Merger) :
    Prop where
  inputs : ∀ s ∈ m.sorters, ∀ f ∈ s.feeds, f.Under schema
  sorters : ∀ s ∈ m.sorters, ∃ x, (s.execution items m.location).outcome = .ok x
  sorterFrames : ∀ s ∈ m.sorters,
    (s.node items m.location).FramesWithin (lengthLimit - 1) s.workplace s.arrival s.feeds 1
  merge : ∃ x, (m.execution items bottom).outcome = .ok x
  mergeFrames :
    (m.node items bottom).FramesWithin (lengthLimit - 1) m.workplace m.arrival (m.feeds items) 1

namespace Succeeds

theorem merge_outcome (h : m.Succeeds items schema bottom) :
    ∃ stats, ((Operator.merge items).run m.workplace m.arrival (m.feeds items)).outcome =
      .ok stats := by
  obtain ⟨⟨stats, result⟩, hx⟩ := h.merge
  exact ⟨stats, OperatorNode.outcome_of_execute hx⟩

theorem sorters_ne_nil (h : m.Succeeds items schema bottom) : m.sorters ≠ [] := by
  intro hnil
  obtain ⟨stats, hstats⟩ := h.merge_outcome
  rw [feeds, hnil] at hstats
  cases hstats

/-- The limit reads what the merge has written. -/
theorem feed_ok (h : m.Succeeds items schema bottom) (hcolumns : schema.columns ≠ [])
    {given : Schema} (hended : (m.feed items bottom).Ended given) :
    (∀ s ∈ (m.feed items bottom).splits, s.schema = given) ∧
      rowsOf (m.feed items bottom).splits =
        rowsOf ((Operator.merge items).run m.workplace m.arrival (m.feeds items)).splits := by
  obtain ⟨stats, hstats⟩ := h.merge_outcome
  obtain ⟨keyed, hfeeds, hs, hunder, _⟩ := runMerge_ok hstats
  have hkeyed : keyed.columns = schema.columns := by
    obtain ⟨s, hmem⟩ := List.exists_mem_of_ne_nil _ h.sorters_ne_nil
    exact (Sorter.feed_ok hcolumns (h.inputs s hmem) (h.sorterFrames s hmem) (h.sorters s hmem)
      (hfeeds _ (List.mem_map_of_mem hmem)).1).1
  have hcounts : keyed.withoutKeys.Counts := .inl (hkeyed ▸ hcolumns)
  have hfeed : m.feed items bottom = _ :=
    (m.node items bottom).ofStream_sent rfl hcounts h.merge hs hunder h.mergeFrames hended
  obtain rfl : keyed.withoutKeys = given :=
    Except.ok.inj ((congrArg Feed.schema hfeed).symm.trans hended.schema_eq)
  rw [hfeed]
  constructor
  · intro s hmem
    obtain ⟨b, hb, rfl⟩ := List.mem_map.mp hmem
    exact (Emission.batchesTo_under hs hunder hb).schema_eq
  · exact (rowsOf_undirected _).trans (Emission.rowsOf_batchesTo_single hs)

end Succeeds
end Merger

namespace Operator

variable {w : Workplace} {arrival : List Nat} {count : UInt64} {f : Feed} {stats : Stats}

/-- A limit over one input reads all rows of it and writes the first of them. -/
theorem limit_run_ok {schema : Schema} (hf : f.Ended schema)
    (hs : ∀ s ∈ f.splits, s.schema = schema)
    (h : ((Operator.limit count).run w arrival [f]).outcome = .ok stats) :
    stats = ⟨(rowsOf f.splits).length, min count.toNat (rowsOf f.splits).length⟩ ∧
      rowsOf ((Operator.limit count).run w arrival [f]).splits =
        (rowsOf f.splits).take count.toNat := by
  obtain ⟨p, hp⟩ : ∃ p, limitProcess count.toNat schema = .ok p := ⟨_, rfl⟩
  have hrun : (Operator.limit count).run w arrival [f] = p.run f := by
    simp only [run, Feed.gather, Process.runOn, ok_bind, hf.schema_eq, hp]
    rfl
  have hfinish : p.finish = fun _ => [] := by
    cases hp
    rfl
  have hstart : p.start = count.toNat := by
    cases hp
    rfl
  have hwritten := p.written_run f
  rw [hf.fault_eq, (limitProcess_takes hp).told_eq hs, hfinish, hstart] at hwritten
  rw [hrun] at h ⊢
  rw [Emission.written?, h] at hwritten
  simp only [Except.toOption, Option.map_some, Option.isSome_none, Bool.false_eq_true, if_false,
    rowsOf_nil, List.append_nil, Option.some.injEq, Prod.mk.injEq, List.length_take] at hwritten
  exact ⟨hwritten.2.2, hwritten.2.1⟩

end Operator

/-- Where rows in order are cut in two, no row behind the cut stands before a row in front of it. -/
theorem not_lt_of_cut {items : List SortItem} {schema : Schema} {front back keyed : List Row}
    (hkeyed : (front ++ back).mapM (keyRow schema items) = .ok keyed)
    (horder : InOrder (compareKeys (directionsOf items)) keyed) {a b k l : Row} (ha : a ∈ front)
    (hb : b ∈ back) (hk : keyRow schema items a = .ok k) (hl : keyRow schema items b = .ok l) :
    compareKeys (directionsOf items) l k ≠ .lt := by
  rw [List.mapM_append] at hkeyed
  obtain ⟨ks, hks, hkeyed⟩ := bind_ok hkeyed
  obtain ⟨ls, hls, hkeyed⟩ := bind_ok hkeyed
  cases hkeyed
  obtain ⟨k', hk', heq⟩ := exists_of_forall₂ (mapM_ok hks).flip ha
  cases heq.symm.trans hk
  obtain ⟨l', hl', heq⟩ := exists_of_forall₂ (mapM_ok hls).flip hb
  cases heq.symm.trans hl
  have hle := (List.pairwise_append.mp horder).2.2 k hk' l hl'
  have hswap : compareKeys (directionsOf items) l k =
      (compareKeys (directionsOf items) k l).swap := compareKeysFrom_swap l k 0 _
  intro hlt
  rw [hswap, Ordering.swap_eq_lt] at hlt
  rw [hlt] at hle
  cases hle

/-- Of all rows that reach the sorters, a limit behind the merge writes least ones. -/
theorem limit_writes_least {items : List SortItem} {schema : Schema} {bottom : Location} {m : Merger}
    {w : Workplace} {arrival : List Nat} {count : UInt64} {stats : Stats}
    (hcolumns : schema.columns ≠ []) (hmix : Unmixed schema items m.rows)
    (hm : m.Succeeds items schema bottom)
    (hlimit : ((Operator.limit count).run w arrival [m.feed items bottom]).outcome = .ok stats) :
    let written := rowsOf ((Operator.limit count).run w arrival [m.feed items bottom]).splits
    stats = ⟨m.rows.length, min count.toNat m.rows.length⟩ ∧
      ∃ dropped keyed, (written ++ dropped).Perm (m.rows.map Row.withoutKeys) ∧
        (written ++ dropped).mapM (keyRow schema items) = .ok keyed ∧
        InOrder (compareKeys (directionsOf items)) keyed ∧
        written.length = min count.toNat m.rows.length ∧
        ∀ a ∈ written, ∀ b ∈ dropped, ∀ k l, keyRow schema items a = .ok k →
          keyRow schema items b = .ok l → compareKeys (directionsOf items) l k ≠ .lt := by
  intro written
  obtain ⟨given, hended⟩ := Operator.ended_of_run hlimit _ (List.mem_singleton_self _)
  obtain ⟨hschemas, hread⟩ := hm.feed_ok hcolumns hended
  obtain ⟨hstats, (hwritten : written = _)⟩ := Operator.limit_run_ok hended hschemas hlimit
  obtain ⟨mergeStats, hmerge⟩ := hm.merge_outcome
  obtain ⟨hperm, keyed, hkeyed, horder⟩ :=
    merge_sorters_ok hcolumns hm.inputs hmix hm.sorterFrames hm.sorters hmerge
  rw [← Merger.feeds] at hperm hkeyed
  rw [← hread] at hperm hkeyed
  have hcount : (rowsOf (m.feed items bottom).splits).length = m.rows.length :=
    hperm.length_eq.trans (List.length_map _)
  rw [hcount] at hstats
  rw [hwritten]
  refine ⟨hstats, (rowsOf (m.feed items bottom).splits).drop count.toNat, keyed, ?_⟩
  rw [List.take_append_drop]
  refine ⟨hperm, hkeyed, horder, by rw [List.length_take, hcount], ?_⟩
  rw [← List.take_append_drop count.toNat (rowsOf _)] at hkeyed
  intro a ha b hb k l hk hl
  exact not_lt_of_cut hkeyed horder ha hb hk hl

section Numbers

def limitBottom : Location := ⟨"bottom", "host", 3⟩

def numberMerger : Merger where
  workplace := emptyWorkplace 4
  arrival := []
  sorters := numberSorters
  location := mergeTop

def mergedNumbers : Split := { schema := numbers, rows := [1, 2, 3].map numberRow }

theorem batches_mergedNumbers : StreamWriter.batches mergedNumbers 4 = [mergedNumbers] :=
  StreamWriter.batches_of_le (by decide) (by decide)

theorem numberMerger_run :
    (Operator.merge byNumber).run (emptyWorkplace 4) [] (numberMerger.feeds byNumber) =
      { schema := some numbers, splits := [mergedNumbers], outcome := .ok ⟨3, 3⟩ } := by
  rw [Merger.feeds, numberMerger, numberSorters_ok.2.2.2, ← batches_mergedNumbers]
  rfl

theorem numberMerger_batches :
    ((Operator.merge byNumber).run (emptyWorkplace 4) [] (numberMerger.feeds byNumber)).batchesTo 1
      .single 4 0 = [mergedNumbers] := by
  have hflat : ((Operator.merge byNumber).run (emptyWorkplace 4) []
      (numberMerger.feeds byNumber)).batchesTo 1 .single 4 0 =
        StreamWriter.batches mergedNumbers 4 ++ [] := by
    rw [numberMerger_run]
    rfl
  rw [hflat, batches_mergedNumbers]
  rfl

theorem fits_mergedNumbers : Fits maxPayload numbers [mergedNumbers] :=
  ⟨by decide +kernel, List.forall_mem_singleton.mpr (by decide +kernel)⟩

theorem mergedNumbers_under : ∀ s ∈ [mergedNumbers], s.Under numbers := by
  refine List.forall_mem_singleton.mpr ⟨rfl, fun r hr => ?_⟩
  obtain ⟨n, _, rfl⟩ := List.mem_map.mp hr
  exact ⟨rfl, rfl, rfl⟩

theorem numberMerger_outcome :
    ∃ x, (numberMerger.execution byNumber limitBottom).outcome = .ok x := by
  have hrun : (numberMerger.node byNumber limitBottom).operator.run numberMerger.workplace
      numberMerger.arrival (numberMerger.feeds byNumber) = _ := numberMerger_run
  simp only [Merger.execution, OperatorNode.execute, hrun]
  exact ⟨_, rfl⟩

theorem numberMerger_succeeds : numberMerger.Succeeds byNumber numbers limitBottom where
  inputs := numberSorters_ok.1
  sorters := numberSorters_ok.2.1
  sorterFrames := numberSorters_ok.2.2.1
  merge := numberMerger_outcome
  mergeFrames := by
    intro schema hs i hi
    obtain rfl : i = 0 := by omega
    obtain rfl : numbers = schema :=
      Option.some.inj ((congrArg Emission.schema numberMerger_run).symm.trans hs)
    have hle : maxPayload ≤ lengthLimit - 1 := by decide
    refine ⟨Nat.le_trans fits_mergedNumbers.schema hle, fun s hmem => ?_⟩
    have hmem : s ∈ [mergedNumbers] := numberMerger_batches ▸ hmem
    exact Nat.le_trans (fits_mergedNumbers.batches s hmem) hle

theorem numberMerger_feed : numberMerger.feed byNumber limitBottom =
    .ofSplits numbers [mergedNumbers.undirected] := by
  have hbytes : ((numberMerger.execution byNumber limitBottom).sent[0]?).getD [] =
      StreamWriter.stream numbers [mergedNumbers] := by
    rw [← numberMerger_batches]
    exact OperatorNode.sent_single rfl numberMerger_outcome
      (congrArg Emission.schema numberMerger_run)
  rw [Merger.feed, hbytes, Feed.ofStream_stream mergedNumbers_under (.inl (by simp [numbers]))
    fits_mergedNumbers]
  rfl

/-- A limit of two rows over two sorters, one of which has the greatest row and the least. -/
theorem limit_writes_least_numbers :
    let written := rowsOf ((Operator.limit 2).run (emptyWorkplace 4) []
      [numberMerger.feed byNumber limitBottom]).splits
    written.length = 2 ∧ ∃ dropped, (written ++ dropped).Perm ([3, 1, 2].map numberRow) ∧
      ∀ a ∈ written, ∀ b ∈ dropped, ∀ k l, keyRow numbers byNumber a = .ok k →
        keyRow numbers byNumber b = .ok l → compareKeys [.ascending] l k ≠ .lt := by
  have hlimit : ((Operator.limit 2).run (emptyWorkplace 4) []
      [numberMerger.feed byNumber limitBottom]).outcome = .ok ⟨3, 2⟩ := by
    rw [numberMerger_feed]
    rfl
  obtain ⟨_, dropped, keyed, hperm, _, _, hlength, hleast⟩ := limit_writes_least
    (by simp [numbers] : numbers.columns ≠ []) numbers_unmixed numberMerger_succeeds hlimit
  exact ⟨hlength, dropped, hperm, hleast⟩

end Numbers

end QueryCluster
