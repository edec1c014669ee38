import Mathlib.Data.List.Nodup
import Mathlib.Data.List.Range
import QueryCluster.Graph.Build
import QueryCluster.Operator.Run
import QueryCluster.Proofs.Operator.Rowwise

/-!
# Scans side by side

Scans that share out the partitions of a table read each partition once. So what they write together
are the rows of the table that pass the filters.
-/
namespace QueryCluster

/-- Every stored value is null or of the type that the scan declares for its column. -/
def TableScan.Stored (tables : TableStore) (t : TableScan) : Prop :=
  ∀ p splits, tables.read t.name p t.columns.withoutKeys = .ok splits →
    ∀ s ∈ splits, s.schema = t.columns.withoutKeys ∧ ∀ r ∈ s.rows, r.Typed t.columns.columns

/-- The part of a scan that reads some partitions. -/
def TableScan.part (t : TableScan) (partitions : List UInt64) : PartitionScan :=
  { catalog := t.catalog, schema := t.schema, table := t.table, partitions, columns := t.columns,
    filters := t.filters }

theorem keepRows_all (schema : Schema) (rows : List Row) :
    keepRows (fun r => keepsAll schema r.values []) rows = .ok rows := by
  induction rows with
  | nil => rfl
  | cons r rows ih => exact keepRows_cons rfl ih

theorem filterSplits_ok {schema : Schema} {filters : List Expr} {splits out : List Split}
    {count : Nat} (hk : schema.keys = []) (hs : ∀ s ∈ splits, s.Under schema)
    (h : filterSplits filters splits = (count, out, none)) :
    keepRows (fun r => keepsAll schema r.values filters) (rowsOf splits) = .ok (rowsOf out) ∧
      ∀ t ∈ out, t.Under schema := by
  induction splits generalizing count out with
  | nil =>
    cases h
    exact ⟨rfl, by simp⟩
  | cons s splits ih =>
    have hfirst := hs s List.mem_cons_self
    have hkept : ∀ kept, (if filters.isEmpty then Except.ok s else s.filter filters) = .ok kept →
        keepRows (fun r => keepsAll schema r.values filters) s.rows = .ok kept.rows ∧
          kept.Under schema := by
      intro kept hkept
      split at hkept
      · rename_i hnil
        obtain rfl := List.isEmpty_iff.mp hnil
        cases hkept
        exact ⟨keepRows_all schema _, hfirst⟩
      · exact filter_ok hfirst hk hkept
    rw [filterSplits] at h
    rcases hf : (if filters.isEmpty then Except.ok s else s.filter filters) with e | kept
    · rw [hf] at h
      cases h
    rw [hf] at h
    rcases hr : filterSplits filters splits with ⟨more, rest, fault⟩
    simp only [hr] at h
    cases h
    obtain ⟨hrows, hunder⟩ := hkept kept hf
    obtain ⟨hrest, hunderRest⟩ := ih (fun t ht => hs t (List.mem_cons_of_mem s ht)) hr
    refine ⟨?_, fun t ht => ?_⟩
    · rw [rowsOf_cons, rowsOf_append, rowsOf_unlessEmpty]
      exact (rowwise_keepRows _).append _ _ _ _ hrows hrest
    · rcases List.mem_append.mp ht with ht | ht
      · rw [Router.mem_unlessEmpty ht]
        exact hunder
      · exact hunderRest t ht

section Scan

variable {tables : TableStore} {t : TableScan}

/-- What a scan makes of the partitions that it reads. -/
def TableScan.keep (t : TableScan) (rows : List Row) : Except OperatorError (List Row) :=
  keepRows (fun r => keepsAll t.columns.withoutKeys r.values t.filters) rows

theorem scanPartitions_cons_ok {scan : PartitionScan} {schema : Schema} {p : UInt64} {ps : List UInt64}
    {out : List Split} {count : Nat} (h : scanPartitions tables scan schema (p :: ps) = (count, out, none)) :
    ∃ stored n kept m rest,
      tables.read ⟨scan.catalog, scan.schema, scan.table⟩ p.toNat schema = .ok stored ∧
      filterSplits scan.filters stored = (n, kept, none) ∧
      scanPartitions tables scan schema ps = (m, rest, none) ∧ out = kept ++ rest := by
  rw [scanPartitions] at h
  rcases hread : tables.read ⟨scan.catalog, scan.schema, scan.table⟩ p.toNat schema with e | stored
  · rw [hread] at h
    cases h
  rcases hf : filterSplits scan.filters stored with ⟨n, kept, _ | e⟩
  · rcases hr : scanPartitions tables scan schema ps with ⟨m, rest, fault⟩
    simp only [hread, hf, hr] at h
    cases h
    exact ⟨stored, n, kept, m, rest, rfl, hf, rfl, rfl⟩
  · simp only [hread, hf] at h
    cases h

theorem scanPartitions_ok (ht : t.Stored tables) {all partitions : List UInt64} {out : List Split}
    {count : Nat} (h : scanPartitions tables (t.part all) t.columns.withoutKeys partitions =
      (count, out, none)) :
    ∃ reads, partitions.mapM (fun p => tables.read t.name p.toNat t.columns.withoutKeys) = .ok reads ∧
      t.keep (rowsOf reads.flatten) = .ok (rowsOf out) ∧
      (∀ s ∈ out, s.Under t.columns.withoutKeys) ∧
      ∀ r ∈ rowsOf reads.flatten, r.Typed t.columns.columns := by
  induction partitions generalizing count out with
  | nil =>
    cases h
    exact ⟨[], rfl, rfl, by simp, by simp⟩
  | cons p ps ih =>
    obtain ⟨stored, n, kept, m, rest, hread, hf, hr, rfl⟩ := scanPartitions_cons_ok h
    have hread : tables.read t.name p.toNat t.columns.withoutKeys = .ok stored := hread
    have hstored := ht p.toNat stored hread
    have hunder : ∀ s ∈ stored, s.Under t.columns.withoutKeys := fun s hs =>
      ⟨(hstored s hs).1, fun r hr => (hstored s hs).1 ▸ ((hstored s hs).2 r hr).fits⟩
    obtain ⟨hkept, hkeptUnder⟩ := filterSplits_ok rfl hunder hf
    obtain ⟨reads, hreads, hrest, hrestUnder, htyped⟩ := ih hr
    refine ⟨stored :: reads, ?_, ?_, fun s hs => ?_, fun r hr => ?_⟩
    · rw [List.mapM_cons, hread, hreads]
      rfl
    · rw [List.flatten_cons, rowsOf_append, rowsOf_append]
      exact (rowwise_keepRows _).append _ _ _ _ hkept hrest
    · exact (List.mem_append.mp hs).elim (hkeptUnder s) (hrestUnder s)
    · rw [List.flatten_cons, rowsOf_append] at hr
      rcases List.mem_append.mp hr with hr | hr
      · obtain ⟨s, hs, hr⟩ := List.mem_flatMap.mp hr
        exact (hstored s hs).2 r hr
      · exact htyped r hr

/-- A scan without faults has read all its partitions and kept what passes. -/
theorem runScan_ok (ht : t.Stored tables) {partitions : List UInt64} {inputs : List Feed}
    {stats : Stats} (h : (runScan tables (t.part partitions) inputs).outcome = .ok stats) :
    ∃ reads out,
      partitions.mapM (fun p => tables.read t.name p.toNat t.columns.withoutKeys) = .ok reads ∧
      t.keep (rowsOf reads.flatten) = .ok out ∧ (∀ r ∈ out, r.Typed t.columns.columns) ∧
      (runScan tables (t.part partitions) inputs).Gives t.columns.withoutKeys out := by
  rw [runScan] at h ⊢
  split at h
  · cases h
  rename_i hinputs
  rw [if_neg hinputs]
  rcases hs : scanPartitions tables (t.part partitions) t.columns.withoutKeys partitions with
    ⟨count, splits, _ | e⟩
  swap
  · have hs' : scanPartitions tables (t.part partitions) (t.part partitions).columns.withoutKeys
      (t.part partitions).partitions = (count, splits, some e) := hs
    simp only [hs'] at h
    cases h
  have hs' : scanPartitions tables (t.part partitions) (t.part partitions).columns.withoutKeys
    (t.part partitions).partitions = (count, splits, none) := hs
  obtain ⟨reads, hreads, hkept, hunder, htyped⟩ := scanPartitions_ok ht hs
  refine ⟨reads, rowsOf splits, hreads, hkept, fun r hr => ?_, ?_⟩
  · exact htyped r ((keepRows_sublist hkept).subset hr)
  · simp only [hs']
    exact ⟨rfl, hunder, .refl _⟩

theorem mem_steps {count n i m : Nat} (hi : i < n) :
    m ∈ List.range' i ((count - i + n - 1) / n) n ↔ m < count ∧ m % n = i := by
  have hn : 0 < n := Nat.lt_of_le_of_lt (Nat.zero_le i) hi
  rw [List.mem_range']
  constructor
  · rintro ⟨k, hk, rfl⟩
    have hkn : n * (k + 1) ≤ count - i + n - 1 := by
      have := Nat.mul_le_mul_left n (Nat.succ_le_of_lt hk)
      exact Nat.le_trans this (Nat.mul_div_le _ _)
    rw [Nat.mul_add, Nat.mul_one] at hkn
    refine ⟨by omega, ?_⟩
    rw [Nat.add_mul_mod_self_left, Nat.mod_eq_of_lt hi]
  · rintro ⟨hm, hmod⟩
    have hdiv := Nat.mod_add_div m n
    refine ⟨m / n, ?_, by omega⟩
    rw [Nat.lt_div_iff_mul_lt hn, Nat.mul_comm]
    omega

/-- Every number below a count is a step away from exactly one start. -/
theorem steps_perm {count n : Nat} (hn : 0 < n) :
    ((List.range n).flatMap fun i => List.range' i ((count - i + n - 1) / n) n).Perm
      (List.range count) := by
  refine (List.perm_ext_iff_of_nodup ?_ List.nodup_range).mpr fun m => ?_
  · refine List.nodup_flatMap.mpr ⟨fun i _ => List.nodup_range' n hn, ?_⟩
    refine List.nodup_range.imp_of_mem fun {i j} hi hj hij => ?_
    intro m hmi hmj
    exact hij (((mem_steps (List.mem_range.mp hi)).mp hmi).2.symm.trans
      ((mem_steps (List.mem_range.mp hj)).mp hmj).2)
  · rw [List.mem_flatMap, List.mem_range]
    constructor
    · rintro ⟨i, hi, hm⟩
      exact ((mem_steps (List.mem_range.mp hi)).mp hm).1
    · intro hm
      have hlt := Nat.mod_lt m hn
      exact ⟨m % n, List.mem_range.mpr hlt, (mem_steps hlt).mpr ⟨hm, rfl⟩⟩

theorem rowsOf_flatMap_flatten (is : List Nat) (reads : Nat → List (List Split)) :
    rowsOf (is.flatMap reads).flatten = is.flatMap fun i => rowsOf (reads i).flatten := by
  induction is with
  | nil => rfl
  | cons i is ih =>
    rw [List.flatMap_cons, List.flatten_append, rowsOf_append, ih, List.flatMap_cons]

/-- Scans that share out the partitions give the rows of the whole scan. -/
theorem scans_mean {n : Nat} (hn : 0 < n) {reads : Nat → List (List Split)} {out : Nat → List Row}
    (hreads : ∀ i < n, (Plan.everyNth t.partitions.toNat n i).mapM
      (fun p => tables.read t.name p.toNat t.columns.withoutKeys) = .ok (reads i))
    (hout : ∀ i < n, t.keep (rowsOf (reads i).flatten) = .ok (out i)) :
    ∃ all, t.meaning tables = .ok all ∧ ((List.range n).flatMap out).Perm all := by
  have hparts : ∀ i ∈ List.range n,
      (List.range' i ((t.partitions.toNat - i + n - 1) / n) n).mapM
        (fun p => tables.read t.name p t.columns.withoutKeys) = .ok (reads i) := by
    intro i hi
    have hi := List.mem_range.mp hi
    have hnumbers : (Plan.everyNth t.partitions.toNat n i).map UInt64.toNat =
        List.range' i ((t.partitions.toNat - i + n - 1) / n) n := by
      rw [Plan.everyNth, List.map_map]
      refine (List.map_congr_left fun x hx => ?_).trans (List.map_id _)
      have hlt := ((mem_steps hi).mp hx).1
      exact UInt64.toNat_ofNat_of_lt (Nat.lt_trans hlt t.partitions.toNat_lt)
    rw [← hnumbers]
    refine mapM_eq_ok ?_
    rw [List.forall₂_map_left_iff]
    exact mapM_ok (hreads i hi)
  obtain ⟨stored, hstored, hperm⟩ := mapM_perm_ok (steps_perm hn) (mapM_flatMap_ok hparts)
  have hrows : (rowsOf stored.flatten).Perm
      ((List.range n).flatMap fun i => rowsOf (reads i).flatten) := by
    rw [← rowsOf_flatMap_flatten]
    exact hperm.symm.flatten.flatMap_right _
  obtain ⟨all, hall, hsame⟩ := (rowwise_keepRows _).workers hrows hout
  refine ⟨all, ?_, hsame⟩
  rw [TableScan.meaning, hstored]
  exact hall

end Scan

end QueryCluster
