import QueryCluster.Proofs.Graph.Run
import QueryCluster.Proofs.Operator.Typed

/-!
# Writing typed rows

Where every output is open under the schema of the rows, and the key columns of the partitioning are among
its columns, writing meets no fault; and whatever reaches an output has the values that the operator wrote.
-/
namespace QueryCluster

variable {schema : Schema}

/-- An output whose stream has begun with a schema and may go on. -/
def Output.Open (schema : Schema) (o : Output) : Prop :=
  ∃ batchRows rowsWritten, o.writer = some ⟨batchRows, some schema, rowsWritten⟩

namespace Router

/-- Outputs that are all treated well. -/
theorem treat_none {P Q : Output → Prop} {f : Nat → Output → Except OperatorError Output}
    (hf : ∀ i o, P o → ∃ o', f i o = .ok o' ∧ Q o') (i : Nat) {os : List Output} (hos : ∀ o ∈ os, P o) :
    ∃ os', treat f i os = (none, os') ∧ ∀ o ∈ os', Q o := by
  induction os generalizing i with
  | nil => exact ⟨[], rfl, by simp⟩
  | cons o os ih =>
    obtain ⟨hhead, hrest⟩ := List.forall_mem_cons.mp hos
    obtain ⟨o', ho', hq⟩ := hf i o hhead
    obtain ⟨os', hos', hqs⟩ := ih (i + 1) hrest
    refine ⟨o' :: os', ?_, List.forall_mem_cons.mpr ⟨hq, hqs⟩⟩
    rw [treat, ho', hos']

theorem onOutputs_none {P Q : Output → Prop} {f : Nat → Output → Except OperatorError Output}
    (hf : ∀ i o, P o → ∃ o', f i o = .ok o' ∧ Q o') {r : Router} (hr : ∀ o ∈ r.outputs, P o) :
    ∃ r', r.onOutputs f = (none, r') ∧ ∀ o ∈ r'.outputs, Q o := by
  obtain ⟨os, hos, hq⟩ := treat_none hf 0 hr
  exact ⟨{ r with outputs := os }, by rw [onOutputs, hos], hq⟩

theorem send_open {s : Split} (hs : s.Shaped schema) (i : Nat) {o : Output} (ho : o.Open schema) :
    ∃ o', send (·.writeSplit s) i o = .ok o' ∧ o'.Open schema := by
  obtain ⟨batchRows, rowsWritten, hw⟩ := ho
  have hfit : ¬ (s.schema.columns.length ≠ schema.columns.length ∨
      s.schema.keys.length ≠ schema.keys.length) := by simp [hs.1, hs.2]
  simp only [send, hw, StreamWriter.writeSplit, if_neg hfit]
  exact ⟨_, rfl, _, _, rfl⟩

theorem writeSplit_open {r : Router} (hr : ∀ o ∈ r.outputs, o.Open schema) {s : Split}
    (hs : s.Shaped schema) : ∃ r', r.writeSplit s = (none, r') ∧ ∀ o ∈ r'.outputs, o.Open schema := by
  have hto : ∀ t : Nat, ∀ r : Router, (∀ o ∈ r.outputs, o.Open schema) →
      ∃ r', r.sendTo t s = (none, r') ∧ ∀ o ∈ r'.outputs, o.Open schema := fun t r hr => by
    refine onOutputs_none (fun i o ho => ?_) hr
    split
    · exact send_open hs i ho
    · exact ⟨o, rfl, ho⟩
  rw [writeSplit]
  split
  · exact ⟨r, rfl, hr⟩
  cases hp : r.partitioning with
  | single => exact hto 0 r hr
  | oneToOne => exact hto 0 r hr
  | roundRobin => exact hto _ _ hr
  | hash keys =>
    refine onOutputs_none (fun i o ho => ?_) hr
    simp only
    split
    · exact ⟨o, rfl, ho⟩
    · exact send_open (s := r.bucket s i) hs i ho

theorem writeSplits_open {splits : List Split} (hs : ∀ s ∈ splits, s.Shaped schema) {r : Router}
    (hr : ∀ o ∈ r.outputs, o.Open schema) :
    ∃ r', r.writeSplits splits = (none, r') ∧ ∀ o ∈ r'.outputs, o.Open schema := by
  induction splits generalizing r with
  | nil => exact ⟨r, rfl, hr⟩
  | cons s splits ih =>
    obtain ⟨hhead, hrest⟩ := List.forall_mem_cons.mp hs
    obtain ⟨r₁, h₁, hr₁⟩ := writeSplit_open hr hhead
    rw [writeSplits, h₁]
    exact ih hrest hr₁

theorem writeSchema_open {outputs batchRows : Nat} {partitioning : Partitioning} {keyColumns : List Nat}
    (hc : columnsOf partitioning schema = .ok keyColumns) :
    ∃ r, (start outputs partitioning batchRows).writeSchema schema = (none, r) ∧
      ∀ o ∈ r.outputs, o.Open schema := by
  have hc' : columnsOf (start outputs partitioning batchRows).partitioning schema = .ok keyColumns := hc
  rw [writeSchema, hc']
  have hfresh : ∀ i o, o = { writer := some (StreamWriter.start batchRows) } →
      ∃ o', send (·.writeSchema schema) i o = .ok o' ∧ o'.Open schema := by
    rintro i o rfl
    exact ⟨_, rfl, _, _, rfl⟩
  exact onOutputs_none hfresh fun o ho => List.eq_of_mem_replicate ho

theorem finishFrom_open {os : List Output} (hos : ∀ o ∈ os, o.Open schema) : (finishFrom os).1 = none := by
  induction os with
  | nil => rfl
  | cons o os ih =>
    obtain ⟨⟨batchRows, rowsWritten, hw⟩, hrest⟩ := List.forall_mem_cons.mp hos
    rw [finishFrom, hw]
    exact ih hrest

end Router

namespace Emission

variable {e : Emission} {outputs batchRows : Nat} {partitioning : Partitioning} {keyColumns : List Nat}

/-- Sending adds no fault to those of the run. -/
theorem send_outcome (hs : e.schema = some schema) (hu : ∀ s ∈ e.splits, s.Under schema)
    (hc : Router.columnsOf partitioning schema = .ok keyColumns) :
    (e.send (.start outputs partitioning batchRows)).1 = e.outcome := by
  obtain ⟨r₁, h₁, hr₁⟩ := @Router.writeSchema_open schema outputs batchRows _ _ hc
  obtain ⟨r₂, h₂, hr₂⟩ := Router.writeSplits_open (fun s h => (hu s h).shaped) hr₁
  rw [send_eq, write, hs]
  simp only [h₁, h₂]
  rcases e.outcome with f | stats
  · rfl
  · rcases hf : r₂.finish with ⟨_ | f, r₃⟩
    · simp only [hf]
    · have hnone := Router.finishFrom_open hr₂
      have hfault : (Router.finishFrom r₂.outputs).1 = some f := congrArg Prod.fst hf
      rw [hnone] at hfault
      cases hfault

theorem collect_safe (he : e.Conforms schema) (hopen : e.schema = none → e.splits = []) :
    SchemaSafe e.collect := by
  -- the first split decides the schema, and no later one is refused
  have happend : ∀ (splits : List Split) (c : Collector) (all : Split), c.result = some all →
      all.schema = schema → (∀ s ∈ splits, s.Under schema) →
        ∃ d, splits.foldlM Collector.writeSplit c = .ok d := by
    intro splits
    induction splits with
    | nil => exact fun c _ _ _ _ => ⟨c, rfl⟩
    | cons s splits ih =>
      intro c all hc hall hs
      obtain ⟨hhead, hrest⟩ := List.forall_mem_cons.mp hs
      have hshaped : s.Shaped all.schema := hall ▸ hhead.shaped
      have hstep : c.writeSplit s =
          .ok { c with result := some { all with rows := all.rows ++ s.rows } } := by
        rw [Collector.writeSplit, hc]
        simp only [Split.append_of_shaped hshaped]
        rfl
      obtain ⟨d, hd⟩ := ih { c with result := some { all with rows := all.rows ++ s.rows } } _ rfl hall hrest
      exact ⟨d, by rw [List.foldlM_cons, hstep]; exact hd⟩
  rw [collect]
  rcases hs : e.schema with _ | s
  · rw [hopen hs]
    exact he.outcome.bind fun stats _ => fun f hf => by cases hf; exact id
  · obtain rfl := he.schema_eq s hs
    obtain ⟨d, hd⟩ := happend e.splits (({} : Collector).writeSchema s) { schema := s } rfl rfl
      fun x hx => (he.splits x hx).under
    simp only [hd]
    refine he.outcome.bind fun stats _ => ?_
    cases d.result with
    | none => exact fun f hf => by cases hf; exact id
    | some all => exact failsWith_ok _

end Emission

theorem Router.share_conforms {r : Router} {s t : Split} (hs : s.Conforms schema) {i : Nat}
    (h : t ∈ r.share s i) : t.Conforms schema := by
  cases hp : r.partitioning <;> simp only [share, hp] at h
  case hash keys =>
    obtain ⟨rfl, hrows⟩ := hs
    rw [mem_unlessEmpty h]
    refine ⟨rfl, fun row hrow => ?_⟩
    obtain ⟨old, hold, rfl⟩ := List.mem_map.mp hrow
    exact (hrows old (List.mem_of_mem_filter hold)).settled
  all_goals
    split at h
    · rw [mem_unlessEmpty h]
      exact hs
    · cases h

theorem Router.shares_conforms {r : Router} {splits : List Split} (hs : ∀ s ∈ splits, s.Conforms schema)
    {i : Nat} : ∀ t ∈ r.shares splits i, t.Conforms schema := by
  induction splits generalizing r with
  | nil => simp [shares]
  | cons s splits ih =>
    intro t ht
    rcases List.mem_append.mp ht with ht | ht
    · exact share_conforms (hs s List.mem_cons_self) ht
    · exact ih (fun u hu => hs u (List.mem_cons_of_mem s hu)) t ht

theorem Emission.batchesTo_conforms {e : Emission} (he : e.Conforms schema) (outputs batchRows i : Nat)
    (partitioning : Partitioning) :
    ∀ b ∈ e.batchesTo outputs partitioning batchRows i, b.Conforms schema := by
  intro b hb
  rw [batchesTo] at hb
  split at hb
  · obtain ⟨s, hshare, hb⟩ := List.mem_flatMap.mp hb
    exact conforms_batches (Router.shares_conforms he.splits s hshare) (by omega) b hb
  · cases hb

/-- A typed node: its operator is typed, and its partitioning finds its keys. -/
structure OperatorNode.Typed (tables : TableStore) (input output : Schema) (n : OperatorNode) : Prop where
  operator : n.operator.Typed tables input output
  routed : ∃ keyColumns, Router.columnsOf n.partitioning output = .ok keyColumns

namespace OperatorNode

variable {w : Workplace} {arrival : List Nat} {inputs : List Feed} {outputs : Nat} {n : OperatorNode}
  {input output : Schema}

/-- A typed node does not fail for a schema. -/
theorem execute_safe (hn : n.Typed w.tables input output) (hf : ∀ f ∈ inputs, f.Conforms input) :
    SchemaSafe (n.execute w arrival inputs outputs).outcome := by
  have he := Operator.run_conforms hn.operator arrival hf
  obtain ⟨keyColumns, hc⟩ := hn.routed
  rcases hs : (n.operator.run w arrival inputs).schema with _ | s
  · obtain ⟨e, hfailed⟩ := Operator.run_unopened hs
    have hsafe := he.outcome
    rw [hfailed] at hsafe
    rw [execute, hfailed]
    split
    · exact fun e' he' => by cases he'; exact hsafe e rfl
    · exact fun e' he' => by cases he'; exact hsafe e rfl
  · obtain rfl := he.schema_eq s hs
    rw [execute]
    split
    · exact (Emission.collect_safe he fun hnone => by cases hnone.symm.trans hs).map _
    · have hsend := @Emission.send_outcome s (n.operator.run w arrival inputs) outputs w.batchRows _ _ hs
        (fun x hx => (he.splits x hx).under) hc
      exact (hsend ▸ he.outcome).map _

/-- What a typed root keeps. -/
theorem root_conforms (hn : n.Typed w.tables input output) (hf : ∀ f ∈ inputs, f.Conforms input)
    {stats : Stats} {rows : Split}
    (h : (n.execute w arrival inputs n.outputs.length).outcome = .ok (stats, some rows)) :
    rows.Conforms output := by
  have he := Operator.run_conforms hn.operator arrival hf
  by_cases hr : n.isRoot
  · obtain ⟨all, hall, hs, hrows⟩ := root_execute_ok hr h
    obtain rfl := Option.some.inj hall
    obtain rfl := he.schema_eq _ hs
    refine ⟨rfl, fun r hmem => ?_⟩
    rw [hrows] at hmem
    obtain ⟨s, hs, hmem⟩ := List.mem_flatMap.mp hmem
    exact (he.splits s hs).rows r hmem
  · simp only [execute, hr] at h
    obtain ⟨_, _, h⟩ := map_ok h
    cases h

end OperatorNode
end QueryCluster
