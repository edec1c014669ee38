import QueryCluster.Proofs.Operator.GroupTypes
import QueryCluster.Proofs.Operator.Scanning
import QueryCluster.Proofs.Operator.SortTypes

/-!
# Typed operators

An operator of a plan is typed by the schema of what it reads and the schema of its stage, which are both
known before anything runs. Whatever arrives of inputs under the one schema, it writes rows under the other,
and never fails for a schema.
-/
namespace QueryCluster

/-- Tables that hold what a scan declares, and that fail, if at all, for other reasons. -/
structure TableScan.Provided (tables : TableStore) (t : TableScan) : Prop where
  stored : t.Stored tables
  safe : ∀ p, SchemaSafe (tables.read t.name p t.columns.withoutKeys)

/-- Reading one schema, an operator writes another. -/
def Operator.Typed (tables : TableStore) (input output : Schema) : Operator → Prop
  | scan part => ∃ (t : TableScan) (partitions : List UInt64), part = t.part partitions ∧
      t.Provided tables ∧ t.columns = output ∧ output.keys = [] ∧ Stage.checkAll output t.filters = .ok ()
  | filter predicate => (Stage.filter predicate).schemaOver input = .ok output
  | project exprs => (Stage.project exprs).schemaOver input = .ok output
  | group keys aggregates _ => (Stage.group keys aggregates).schemaOver input = .ok output
  | localSort items => (∀ i ∈ items, ∃ t, i.expr.typeOf input = .ok t) ∧ keySchema input items = .ok output
  | merge items => input.keys.length = items.length ∧ output = input.withoutKeys
  | limit _ | union => output = input

section Scan

variable {tables : TableStore} {schema : Schema} {filters : List Expr}

theorem filterSplits_conforms (hfilters : ∀ e ∈ filters, ∃ t, e.typeOf schema = .ok t)
    {splits : List Split} (hs : ∀ s ∈ splits, s.Conforms schema) :
    (∀ s ∈ (filterSplits filters splits).2.1, s.Conforms schema) ∧
      ∀ e ∈ (filterSplits filters splits).2.2, ¬ e.OfSchema := by
  induction splits with
  | nil => simp [filterSplits]
  | cons s splits ih =>
    obtain ⟨hhead, hrest⟩ := List.forall_mem_cons.mp hs
    obtain ⟨hsafe, hkept⟩ := filter_conforms hhead hfilters
    have hfirst : SchemaSafe (if filters.isEmpty then .ok s else s.filter filters) ∧
        ∀ kept, (if filters.isEmpty then .ok s else s.filter filters) = .ok kept →
          kept.Conforms schema := by
      split
      · exact ⟨failsWith_ok s, fun kept h => Except.ok.inj h ▸ hhead⟩
      · exact ⟨hsafe, hkept⟩
    rw [filterSplits]
    rcases hf : (if filters.isEmpty then Except.ok s else s.filter filters) with e | kept
    · exact ⟨by simp, fun e' he' => by cases he'; exact hfirst.1 e hf⟩
    · obtain ⟨hsplits, hfault⟩ := ih hrest
      refine ⟨fun t ht => ?_, hfault⟩
      rcases List.mem_append.mp ht with ht | ht
      · rw [Router.mem_unlessEmpty ht]
        exact hfirst.2 kept hf
      · exact hsplits t ht

variable {t : TableScan}

theorem scanPartitions_conforms (ht : t.Provided tables) (hk : t.columns.keys = [])
    (hfilters : ∀ e ∈ t.filters, ∃ u, e.typeOf t.columns = .ok u) (all partitions : List UInt64) :
    (∀ s ∈ (scanPartitions tables (t.part all) t.columns partitions).2.1, s.Conforms t.columns) ∧
      ∀ e ∈ (scanPartitions tables (t.part all) t.columns partitions).2.2, ¬ e.OfSchema := by
  have hbare : t.columns.withoutKeys = t.columns := by rw [Schema.withoutKeys, ← hk]
  induction partitions with
  | nil => simp [scanPartitions]
  | cons p ps ih =>
    rw [scanPartitions]
    have hread : tables.read ⟨(t.part all).catalog, (t.part all).schema, (t.part all).table⟩ p.toNat
        t.columns = tables.read t.name p.toNat t.columns.withoutKeys := by rw [hbare]; rfl
    rw [hread]
    rcases hr : tables.read t.name p.toNat t.columns.withoutKeys with e | stored
    · exact ⟨by simp, fun e' he' => by cases he'; exact ht.safe p.toNat e hr⟩
    have hconforms : ∀ s ∈ stored, s.Conforms t.columns := fun s hs => by
      obtain ⟨hschema, hrows⟩ := ht.stored p.toNat stored hr s hs
      exact ⟨hschema.trans hbare, fun r hmem => (hrows r hmem).conforms _ hk⟩
    obtain ⟨hkept, hfault⟩ := filterSplits_conforms hfilters hconforms
    have hfilter : (t.part all).filters = t.filters := rfl
    simp only [hfilter]
    rcases hf : filterSplits t.filters stored with ⟨count, splits, _ | e⟩
    · rw [hf] at hkept
      obtain ⟨hsplits, hrest⟩ := ih
      exact ⟨fun s hs => (List.mem_append.mp hs).elim (hkept s) (hsplits s), hrest⟩
    · rw [hf] at hkept hfault
      exact ⟨hkept, hfault⟩

theorem runScan_conforms (ht : t.Provided tables) (hk : t.columns.keys = [])
    (hfilters : ∀ e ∈ t.filters, ∃ u, e.typeOf t.columns = .ok u) (partitions : List UInt64)
    (inputs : List Feed) : (runScan tables (t.part partitions) inputs).Conforms t.columns := by
  have hbare : (t.part partitions).columns.withoutKeys = t.columns := by
    show t.columns.withoutKeys = t.columns
    rw [Schema.withoutKeys, ← hk]
  rw [runScan]
  split
  · exact Process.conforms_failed id
  · rw [hbare]
    obtain ⟨hsplits, hfault⟩ :=
      scanPartitions_conforms ht hk hfilters partitions (t.part partitions).partitions
    rcases hs : scanPartitions tables (t.part partitions) t.columns (t.part partitions).partitions with
      ⟨count, splits, fault⟩
    rw [hs] at hsplits hfault
    simp only [hs]
    refine ⟨fun s hs => (Option.some.inj hs).symm, hsplits, ?_⟩
    cases fault with
    | none => exact failsWith_ok _
    | some e => exact fun e' he' => by cases he'; exact hfault e rfl

end Scan

/-- What a typed operator writes, and how it may fail. -/
theorem Operator.run_conforms {w : Workplace} {op : Operator} {input output : Schema}
    (h : op.Typed w.tables input output) (arrival : List Nat) {inputs : List Feed}
    (hf : ∀ f ∈ inputs, f.Conforms input) : (op.run w arrival inputs).Conforms output := by
  cases op with
  | scan part =>
    obtain ⟨t, partitions, rfl, ht, rfl, hk, hcheck⟩ := h
    exact runScan_conforms ht hk (checkAll_ok hcheck) partitions inputs
  | filter predicate => exact Process.runOn_conforms (filterProcess_conforms h) arrival hf
  | project exprs => exact Process.runOn_conforms (projectProcess_conforms h) arrival hf
  | group keys aggregates emptyRow =>
    obtain ⟨p, inv, hp⟩ := groupProcess_conforms emptyRow w.batchRows h
    exact Process.runOn_conforms ⟨p, hp⟩ arrival hf
  | localSort items =>
    exact Process.runOn_conforms (localSortProcess_conforms w.sortLimit h.1 h.2) arrival hf
  | merge items =>
    obtain ⟨hkeys, rfl⟩ := h
    exact runMerge_conforms hkeys w.batchRows hf
  | limit count =>
    cases h
    exact Process.runOn_conforms (limitProcess_conforms count.toNat) arrival hf
  | union =>
    cases h
    exact Process.runOn_conforms unionProcess_conforms arrival hf

end QueryCluster
