import QueryCluster.Proofs.Operator.AggregateValues
import QueryCluster.Proofs.Operator.Feeds
import QueryCluster.Proofs.Operator.GlobalSort

/-!
# Hash aggregation is what it is defined to be

Rows come one by one, and each goes into the group of its key bytes or opens one behind the others. So
the groups stand in the order of their first rows, and each has taken in the rows that have its key, in
the order in which they came. The run fails with the first sum that overflows, and this happens just if
the sum over some group overflows at all.
-/
namespace QueryCluster

open StreamWriter (batches)

namespace Accumulator

variable {argument : Option Nat} {a b : Accumulator} {rows : List Row} {e : ArithmeticFault}

theorem takeIn_append_error {r : Row} (hb : a.takeIn argument rows = .ok b)
    (hr : b.update (argument.map (Grouping.valueAt r)) = .error e) :
    a.takeIn argument (rows ++ [r]) = .error e := by
  rw [takeIn] at hb
  rw [takeIn, List.foldlM_append, hb, ok_bind, List.foldlM_cons, hr]
  rfl

/-- What has failed fails with more rows too. -/
theorem takeIn_error_append (h : a.takeIn argument rows = .error e) (more : List Row) :
    a.takeIn argument (rows ++ more) = .error e := by
  rw [takeIn] at h
  rw [takeIn, List.foldlM_append, h]
  rfl

end Accumulator

/-- The rows of a group, in the order in which they came. -/
def membersOf (keyColumns : List Nat) (rows : List Row) (k : Bytes) : List Row :=
  rows.filter fun r => groupKey keyColumns r = k

section Failing

variable {g : Grouping} {slots : List AggregateSlot} {rows more : List Row} {r : Row}
  {groups groups' : List Group} {e : ArithmeticFault}

/-- Some aggregate over the rows of a group cannot take them all in. -/
def Fails (slots : List AggregateSlot) (rows : List Row) (e : ArithmeticFault) : Prop :=
  ∃ s ∈ slots, (Accumulator.start s.func s.result).takeIn s.argument rows = .error e

theorem fails_of_updateAll {as : List Accumulator} (ha : Accumulated slots rows as)
    (h : Grouping.updateAll r as (slots.map (·.argument)) = .error e) : Fails slots (rows ++ [r]) e := by
  induction ha with
  | nil => cases h
  | @cons s a slots as hfirst _ ih =>
    rw [List.map_cons, Grouping.updateAll] at h
    rcases hnow : a.update (s.argument.map (Grouping.valueAt r)) with e' | a'
    · rw [hnow] at h
      obtain rfl : e' = e := Except.error.inj h
      exact ⟨s, List.mem_cons_self, Accumulator.takeIn_append_error hfirst hnow⟩
    · rw [hnow, ok_bind] at h
      rcases hrest : Grouping.updateAll r as (slots.map (·.argument)) with e' | as'
      · rw [hrest] at h
        obtain rfl : e' = e := Except.error.inj h
        obtain ⟨t, ht, hfails⟩ := ih hrest
        exact ⟨t, List.mem_cons_of_mem s ht, hfails⟩
      · rw [hrest] at h
        cases h

theorem insertRow_error {key : Bytes} (h : g.insertRow key r groups = .error e) :
    (∃ x ∈ groups, x.key = key ∧ Grouping.updateAll r x.accumulators g.arguments = .error e) ∨
      (∀ x ∈ groups, x.key ≠ key) ∧ Grouping.updateAll r g.fresh g.arguments = .error e := by
  induction groups with
  | nil =>
    refine .inr ⟨List.forall_mem_nil _, ?_⟩
    rw [Grouping.insertRow] at h
    rcases hfresh : Grouping.updateAll r g.fresh g.arguments with e' | as
    · rw [hfresh] at h
      exact congrArg _ (Except.error.inj h)
    · rw [hfresh] at h
      cases h
  | cons x groups ih =>
    rw [Grouping.insertRow] at h
    by_cases hkey : x.key = key
    · rw [if_pos hkey] at h
      rcases hnow : Grouping.updateAll r x.accumulators g.arguments with e' | as
      · rw [hnow] at h
        exact .inl ⟨x, List.mem_cons_self, hkey, hnow.trans (congrArg _ (Except.error.inj h))⟩
      · rw [hnow] at h
        cases h
    · rw [if_neg hkey] at h
      rcases hrest : g.insertRow key r groups with e' | rest
      · rw [hrest] at h
        obtain rfl : e' = e := Except.error.inj h
        rcases ih hrest with ⟨y, hy, hyk, hfails⟩ | ⟨hnone, hfails⟩
        · exact .inl ⟨y, List.mem_cons_of_mem x hy, hyk, hfails⟩
        · exact .inr ⟨List.forall_mem_cons.mpr ⟨hkey, hnone⟩, hfails⟩
      · rw [hrest] at h
        cases h

theorem membersOf_append (keyColumns : List Nat) (rows more : List Row) (k : Bytes) :
    membersOf keyColumns (rows ++ more) k = membersOf keyColumns rows k ++ membersOf keyColumns more k :=
  List.filter_append ..

theorem Grouped.addRow_error (hg : g.Over slots) (hgroups : Grouped g slots rows groups)
    (h : g.addRow groups r = .error e) :
    Fails slots (membersOf g.keyColumns (rows ++ [r]) (groupKey g.keyColumns r)) e := by
  have hown : membersOf g.keyColumns [r] (groupKey g.keyColumns r) = [r] :=
    List.filter_cons_of_pos (by simp)
  rw [membersOf_append, hown]
  rcases insertRow_error h with ⟨x, hx, hkey, hfails⟩ | ⟨hnone, hfails⟩
  · rw [hg.arguments] at hfails
    have hheld := (hgroups.holds x hx).accumulators
    rw [hkey] at hheld
    exact fails_of_updateAll hheld hfails
  · rw [hg.arguments, hg.fresh] at hfails
    have hnew : membersOf g.keyColumns rows (groupKey g.keyColumns r) = [] := by
      refine List.filter_eq_nil_iff.mpr fun t ht htk => ?_
      obtain ⟨x, hx, hxk⟩ := List.mem_map.mp ((hgroups.keys _).mpr (List.mem_map_of_mem ht))
      exact hnone x hx (hxk.trans (of_decide_eq_true htk))
    rw [hnew]
    exact fails_of_updateAll (accumulated_fresh slots) hfails

/-- Rows of which one cannot be taken: then the group of some row fails over all rows. -/
theorem Grouped.addRows_error (hg : g.Over slots) (hgroups : Grouped g slots rows groups)
    (h : more.foldlM g.addRow groups = .error e) :
    ∃ k ∈ (rows ++ more).map (groupKey g.keyColumns),
      Fails slots (membersOf g.keyColumns (rows ++ more) k) e := by
  induction more generalizing rows groups with
  | nil => cases h
  | cons r more ih =>
    rw [List.append_cons]
    rw [List.foldlM_cons] at h
    rcases hnow : g.addRow groups r with e' | next
    · rw [hnow] at h
      obtain rfl : e' = e := Except.error.inj h
      obtain ⟨s, hs, hfails⟩ := hgroups.addRow_error hg hnow
      refine ⟨groupKey g.keyColumns r, List.mem_map_of_mem (by simp), s, hs, ?_⟩
      rw [membersOf_append]
      exact Accumulator.takeIn_error_append hfails _
    · rw [hnow] at h
      exact ih (hgroups.addRow hg hnow) h

/-- A row with a new key opens a group behind the others. -/
theorem addRow_keys (h : g.addRow groups r = .ok groups') : groups'.map (·.key) =
    if groupKey g.keyColumns r ∈ groups.map (·.key) then groups.map (·.key)
    else groups.map (·.key) ++ [groupKey g.keyColumns r] := by
  rcases insertRow_ok h with ⟨before, x, after, as, rfl, hkey, _, rfl⟩ | ⟨hnone, as, _, rfl⟩
  · have hkey : x.key = groupKey g.keyColumns r := hkey
    rw [if_pos (by simp [hkey])]
    simp
  · have hnew : groupKey g.keyColumns r ∉ groups.map (·.key) := fun hmem => by
      obtain ⟨x, hx, hxk⟩ := List.mem_map.mp hmem
      exact hnone x hx hxk
    rw [if_neg hnew, List.map_append]
    rfl

theorem eraseDups_concat {α : Type} [BEq α] [LawfulBEq α] (as : List α) (a : α) [Decidable (a ∈ as)] :
    (as ++ [a]).eraseDups = if a ∈ as then as.eraseDups else as.eraseDups ++ [a] := by
  rw [List.eraseDups_append, List.removeAll]
  by_cases hmem : a ∈ as
  · simp [hmem]
  · simp [hmem, List.eraseDups_cons]

/-- Groups stand in the order of their first rows. -/
theorem addRows_keys (hkeys : groups.map (·.key) = (rows.map (groupKey g.keyColumns)).eraseDups)
    (h : more.foldlM g.addRow groups = .ok groups') :
    groups'.map (·.key) = ((rows ++ more).map (groupKey g.keyColumns)).eraseDups := by
  induction more generalizing rows groups with
  | nil =>
    cases h
    rwa [List.append_nil]
  | cons r more ih =>
    rw [List.foldlM_cons] at h
    obtain ⟨next, hnext, h⟩ := bind_ok h
    rw [List.append_cons]
    refine ih ?_ h
    rw [addRow_keys hnext, hkeys, List.map_append, List.map_singleton, eraseDups_concat]
    exact if_congr List.mem_eraseDups rfl rfl

end Failing

/-- An integer sum over some group overflows. -/
def SumOverflows (schema : Schema) (keyColumns : List Nat) (aggregates : List Aggregate)
    (rows : List Row) : Prop :=
  ∃ k ∈ rows.map (groupKey keyColumns), ∃ a ∈ aggregates, a.func = .sum ∧
    ∃ c, Grouping.argumentColumn schema a = .ok (some c) ∧
      Overflows (Aggregate.present c (membersOf keyColumns rows k))

/-- The row of a group: the key values of its first row, and what the aggregates come to. -/
def Aggregated (schema : Schema) (keyColumns : List Nat) (aggregates : List Aggregate)
    (members : List Row) (row : Row) : Prop :=
  ∃ first others results, members = first :: others ∧
    List.Forall₂ (fun (a : Aggregate) v => ∃ argument, Grouping.argumentColumn schema a = .ok argument ∧
      a.func.ComesTo members argument v) aggregates results ∧
    row = { values := keyColumns.map (Grouping.valueAt first) ++ results }

/-- The row of no rows. -/
def defaultRow (aggregates : List Aggregate) : Row :=
  { values := aggregates.map fun a => if a.func = .count then .int64 0 else .null }

section Groups

variable {schema : Schema} {aggregates : List Aggregate} {g : Grouping} {slots : List AggregateSlot}
  {rows : List Row} {groups : List Group}

theorem sumOverflows_iff (hslots : aggregates.mapM (Aggregate.slot schema) = .ok slots)
    (hdefined : ∀ s ∈ slots, s.Defined schema) (hr : ∀ r ∈ rows, r.Conforms schema)
    {keyColumns : List Nat} {e : ArithmeticFault} :
    (∃ k ∈ rows.map (groupKey keyColumns), Fails slots (membersOf keyColumns rows k) e) ↔
      e = .overflow ∧ SumOverflows schema keyColumns aggregates rows := by
  have hmembers : ∀ k, ∀ r ∈ membersOf keyColumns rows k, r.Conforms schema := fun k r hmem =>
    hr r (List.mem_of_mem_filter hmem)
  have hall := mapM_ok hslots
  constructor
  · rintro ⟨k, hk, s, hs, hfails⟩
    obtain ⟨he, hsum, c, hc, hover⟩ := (takeIn_eq_error (hdefined s hs) (hmembers k)).mp hfails
    obtain ⟨a, ha, hslot⟩ := exists_of_forall₂ hall hs
    obtain ⟨hfunc, hargument, _⟩ := slot_ok hslot
    exact ⟨he, k, hk, a, ha, hfunc ▸ hsum, c, hc ▸ hargument, hover⟩
  · rintro ⟨he, k, hk, a, ha, hsum, c, hc, hover⟩
    obtain ⟨s, hs, hslot⟩ := exists_of_forall₂ hall.flip ha
    obtain ⟨hfunc, hargument, _⟩ := slot_ok hslot
    refine ⟨k, hk, s, hs, (takeIn_eq_error (hdefined s hs) (hmembers k)).mpr ⟨he, hfunc.trans hsum, c, ?_, hover⟩⟩
    exact Except.ok.inj (hargument.symm.trans hc)

theorem foldlM_addRow_cases (hg : g.Over slots) (hslots : aggregates.mapM (Aggregate.slot schema) = .ok slots)
    (hdefined : ∀ s ∈ slots, s.Defined schema) (hr : ∀ r ∈ rows, r.Conforms schema) :
    (SumOverflows schema g.keyColumns aggregates rows ∧ rows.foldlM g.addRow [] = .error .overflow) ∨
      ¬ SumOverflows schema g.keyColumns aggregates rows ∧ ∃ groups, rows.foldlM g.addRow [] = .ok groups ∧
        Grouped g slots rows groups ∧
        groups.map (·.key) = (rows.map (groupKey g.keyColumns)).eraseDups := by
  rcases h : rows.foldlM g.addRow [] with e | groups
  · have hfails := Grouped.start.addRows_error hg h
    rw [List.nil_append] at hfails
    obtain ⟨rfl, hover⟩ := (sumOverflows_iff hslots hdefined hr).mp hfails
    exact .inl ⟨hover, rfl⟩
  · have hgrouped := Grouped.start.addRows hg h
    have hkeys : groups.map (·.key) = (([] ++ rows).map (groupKey g.keyColumns)).eraseDups :=
      addRows_keys rfl h
    rw [List.nil_append] at hgrouped hkeys
    refine .inr ⟨fun hover => ?_, groups, rfl, hgrouped, hkeys⟩
    obtain ⟨k, hk, s, hs, hfails⟩ := (sumOverflows_iff hslots hdefined hr).mpr ⟨rfl, hover⟩
    obtain ⟨x, hx, hxk⟩ := List.mem_map.mp ((hgrouped.keys k).mpr hk)
    obtain ⟨a, _, ha⟩ := exists_of_forall₂ (hgrouped.holds x hx).accumulators.flip hs
    rw [← hxk] at hfails
    cases ha.symm.trans hfails

theorem Group.Holds.aggregated {members : List Row} {x : Group} {keyColumns : List Nat}
    (hslots : aggregates.mapM (Aggregate.slot schema) = .ok slots)
    (hdefined : ∀ s ∈ slots, s.Defined schema) (hr : ∀ r ∈ members, r.Conforms schema)
    (hx : x.Holds keyColumns slots members) (hne : members ≠ []) :
    Aggregated schema keyColumns aggregates members x.row := by
  obtain ⟨first, others, rfl⟩ := List.exists_cons_of_ne_nil hne
  refine ⟨first, others, x.accumulators.map Accumulator.result, rfl, ?_, ?_⟩
  · rw [List.forall₂_map_right_iff]
    refine (forall₂_of_common (mapM_ok hslots).flip hx.accumulators).imp fun a b h => ?_
    obtain ⟨s, hs, hslot, hb⟩ := h
    obtain ⟨hfunc, hargument, _⟩ := slot_ok hslot
    exact ⟨s.argument, hargument, hfunc ▸ comesTo_of_takeIn (hdefined s hs) hr hb⟩
  · rw [Group.row, hx.values]
    rfl

theorem Grouped.aggregated (hslots : aggregates.mapM (Aggregate.slot schema) = .ok slots)
    (hdefined : ∀ s ∈ slots, s.Defined schema) (hr : ∀ r ∈ rows, r.Conforms schema)
    (hgroups : Grouped g slots rows groups)
    (hkeys : groups.map (·.key) = (rows.map (groupKey g.keyColumns)).eraseDups) :
    List.Forall₂ (fun k row => Aggregated schema g.keyColumns aggregates (membersOf g.keyColumns rows k) row)
      (rows.map (groupKey g.keyColumns)).eraseDups (groups.map Group.row) := by
  rw [← hkeys, List.forall₂_map_left_iff, List.forall₂_map_right_iff, List.forall₂_same]
  intro x hx
  refine (hgroups.holds x hx).aggregated hslots hdefined
    (fun r hmem => hr r (List.mem_of_mem_filter hmem)) ?_
  obtain ⟨r, hmem, hkey⟩ := List.mem_map.mp ((hgroups.keys x.key).mp (List.mem_map_of_mem hx))
  exact List.ne_nil_of_mem (List.mem_filter.mpr ⟨hmem, decide_eq_true hkey⟩)

theorem result_start (func : AggregateFunction) (t : DataType) :
    (Accumulator.start func t).result = if func = .count then .int64 0 else .null := by
  cases func with
  | sum =>
    rw [Accumulator.start]
    split <;> rfl
  | count | min | max | avg => rfl

theorem fresh_row (hg : g.Over slots) (hslots : aggregates.mapM (Aggregate.slot schema) = .ok slots) :
    Group.row ⟨[], [], g.fresh⟩ = defaultRow aggregates := by
  have hresults : ∀ {aggregates : List Aggregate} {slots : List AggregateSlot},
      List.Forall₂ (fun a s => Aggregate.slot schema a = .ok s) aggregates slots →
      slots.map (fun s => (Accumulator.start s.func s.result).result) =
        aggregates.map fun a => if a.func = .count then .int64 0 else .null := by
    intro aggregates slots h
    induction h with
    | nil => rfl
    | cons hslot _ ih => rw [List.map_cons, List.map_cons, ih, result_start, (slot_ok hslot).1]
  rw [Group.row, hg.fresh, defaultRow, List.map_map, List.nil_append]
  exact congrArg (fun values => Row.mk values [] []) (hresults (mapM_ok hslots))

/-- What a grouping writes: the row of no rows where it is told to, else a row for each key in the order
in which the keys first appear. -/
def GroupRows (schema : Schema) (keyColumns : List Nat) (aggregates : List Aggregate) (emptyRow : Bool)
    (rows out : List Row) : Prop :=
  if rows = [] ∧ keyColumns = [] ∧ emptyRow then out = [defaultRow aggregates]
  else
    List.Forall₂ (fun k row => Aggregated schema keyColumns aggregates (membersOf keyColumns rows k) row)
      (rows.map (groupKey keyColumns)).eraseDups out

theorem Grouped.groupRows (emptyRow : Bool) (hg : g.Over slots)
    (hslots : aggregates.mapM (Aggregate.slot schema) = .ok slots)
    (hdefined : ∀ s ∈ slots, s.Defined schema) (hr : ∀ r ∈ rows, r.Conforms schema)
    (hgroups : Grouped g slots rows groups)
    (hkeys : groups.map (·.key) = (rows.map (groupKey g.keyColumns)).eraseDups) :
    GroupRows schema g.keyColumns aggregates emptyRow rows ((g.closed emptyRow groups).map Group.row) := by
  have hempty : (groups.isEmpty && g.keyColumns.isEmpty && emptyRow) = true ↔
      rows = [] ∧ g.keyColumns = [] ∧ emptyRow := by
    simp only [Bool.and_eq_true, List.isEmpty_iff, hgroups.eq_nil_iff, and_assoc]
  rw [GroupRows, Grouping.closed]
  by_cases h : rows = [] ∧ g.keyColumns = [] ∧ emptyRow
  · rw [if_pos h, if_pos (hempty.mpr h), List.map_singleton, fresh_row hg hslots]
  · rw [if_neg h, if_neg (mt hempty.mp h)]
    exact hgroups.aggregated hslots hdefined hr hkeys

end Groups

section Run

variable {schema : Schema} {keys : List String} {aggregates : List Aggregate} {emptyRow : Bool}
  {batchRows : Nat} {g : Grouping}

theorem exists_schemaOver (hkeys : ∀ k ∈ keys, ∃ c, schema.indexOf? k = some c)
    (htypes : ∀ a ∈ aggregates, ∃ t, a.typeIn schema = .ok t) :
    ∃ output, (Stage.group keys aggregates).schemaOver schema = .ok output := by
  obtain ⟨ks, hks⟩ := exists_mapM_ok (f := fun k => do
      return ({ name := k, type := ← (schema.typeOf k).mapError TypeFault.schema } : Field))
    fun k hk => by
      obtain ⟨c, hc⟩ := hkeys k hk
      obtain ⟨f, _, hf⟩ := Schema.exists_of_indexOf? hc
      exact ⟨_, by rw [hf]; rfl⟩
  obtain ⟨as, has⟩ := exists_mapM_ok (f := fun a : Aggregate => do
      return ({ name := a.label, type := ← a.typeIn schema } : Field))
    fun a ha => by
      obtain ⟨t, ht⟩ := htypes a ha
      exact ⟨_, by rw [ht]; rfl⟩
  exact ⟨_, by rw [Stage.schemaOver, hks, has]; rfl⟩

/-- All splits go through one fold over their rows, and nothing is written before the end. -/
theorem answer_groupProcess {p : Process (List Group)} (hg : Grouping.resolve keys aggregates schema = .ok g)
    (hp : groupProcess keys aggregates emptyRow batchRows schema = .ok p) (groups : List Group)
    (splits : List Split) : p.answer groups splits =
      ([], ((rowsOf splits).foldlM g.addRow groups).mapError OperatorError.arithmetic) := by
  have hstep : ∀ groups s, p.step groups s = do
      return (← (s.rows.foldlM g.addRow groups).mapError OperatorError.arithmetic, []) := by
    rw [groupProcess, hg] at hp
    cases hp
    exact fun _ _ => rfl
  induction splits generalizing groups with
  | nil => rfl
  | cons s splits ih =>
    rw [Process.answer, hstep, rowsOf_cons, List.foldlM_append]
    rcases s.rows.foldlM g.addRow groups with e | next
    · rfl
    · exact congrArg (fun rest => ([] ++ rest.1, rest.2)) (ih next)

theorem groupProcess_run {feed : Feed} {p : Process (List Group)} {slots : List AggregateSlot}
    (hended : feed.Ended schema) (hg : Grouping.resolve keys aggregates schema = .ok g)
    (hover : g.Over slots) (hslots : aggregates.mapM (Aggregate.slot schema) = .ok slots)
    (hdefined : ∀ s ∈ slots, s.Defined schema) (hr : ∀ r ∈ rowsOf feed.splits, r.Conforms schema)
    (hp : groupProcess keys aggregates emptyRow batchRows schema = .ok p) :
    SumOverflows schema g.keyColumns aggregates (rowsOf feed.splits) ∧
        p.run feed = { schema := some g.output, splits := [], outcome := .error (.arithmetic .overflow) } ∨
      ¬ SumOverflows schema g.keyColumns aggregates (rowsOf feed.splits) ∧ ∃ out,
        GroupRows schema g.keyColumns aggregates emptyRow (rowsOf feed.splits) out ∧
        p.run feed =
          { schema := some g.output
            splits := batches { schema := g.output, rows := out } (max batchRows 1)
            outcome := .ok ⟨(rowsOf feed.splits).length, out.length⟩ } := by
  obtain ⟨g', hg', hschema, hstart, hfinish, _⟩ := groupProcess_ok hp
  obtain rfl : g = g' := Except.ok.inj (hg.symm.trans hg')
  have hanswer := answer_groupProcess hg hp p.start feed.splits
  rw [hstart] at hanswer
  rcases foldlM_addRow_cases hover hslots hdefined hr with
    ⟨hsum, hfold⟩ | ⟨hsum, groups, hfold, hgroups, hkeys⟩
  · rw [hfold] at hanswer
    rw [← hstart] at hanswer
    exact .inl ⟨hsum, by rw [Process.run_failed hanswer, hschema]⟩
  · rw [hfold] at hanswer
    rw [← hstart] at hanswer
    refine .inr ⟨hsum, _, hgroups.groupRows emptyRow hover hslots hdefined hr hkeys, ?_⟩
    have hout := StreamWriter.rowsOf_batches
      { schema := g.output, rows := (g.closed emptyRow groups).map Group.row }
      (Nat.le_max_right batchRows 1)
    rw [Process.run_answered hended.fault_eq hanswer, hfinish, hschema, List.nil_append, ← length_rowsOf,
      ← length_rowsOf, hout]

/-- A grouping over inputs that end well under one schema, without averages and sums of floats. If the
integer sum over some group overflows, this is the fault, and nothing has been written. Otherwise every
key has its row, in the order in which the keys first appear, with what its aggregates come to. -/
theorem group_aggregates (w : Workplace) (arrival : List Nat) (emptyRow : Bool) {inputs : List Feed}
    (hne : inputs ≠ [])
    (hinputs : ∀ f ∈ inputs, f.Ended schema ∧ f.Under schema)
    (hr : ∀ r ∈ Feed.rows inputs, r.Conforms schema)
    (hkeys : ∀ k ∈ keys, ∃ c, schema.indexOf? k = some c)
    (haggregates : ∀ a ∈ aggregates, a.func ≠ .avg ∧
      ∃ t, a.typeIn schema = .ok t ∧ (a.func = .sum → t.isFloat = false)) :
    ∃ feed keyColumns, Feed.gather arrival inputs = .ok feed ∧
      Interleaves (inputs.map (·.splits)) feed.splits ∧
      List.Forall₂ (fun k c => schema.indexOf? k = some c) keys keyColumns ∧
      (SumOverflows schema keyColumns aggregates (rowsOf feed.splits) ∧
          ((Operator.group keys aggregates emptyRow).run w arrival inputs).splits = [] ∧
          ((Operator.group keys aggregates emptyRow).run w arrival inputs).outcome =
            .error (.arithmetic .overflow) ∨
        ¬ SumOverflows schema keyColumns aggregates (rowsOf feed.splits) ∧
          GroupRows schema keyColumns aggregates emptyRow (rowsOf feed.splits)
            (rowsOf ((Operator.group keys aggregates emptyRow).run w arrival inputs).splits) ∧
          ((Operator.group keys aggregates emptyRow).run w arrival inputs).outcome =
            .ok ⟨(Feed.rows inputs).length,
              countRows ((Operator.group keys aggregates emptyRow).run w arrival inputs).splits⟩ ∧
          ∀ s ∈ ((Operator.group keys aggregates emptyRow).run w arrival inputs).splits,
            0 < s.rowCount ∧ s.rowCount ≤ max w.batchRows 1) := by
  obtain ⟨feed, hgather, hended, hunder, hweave⟩ := Feed.gather_ended arrival hne hinputs
  have hrows : (rowsOf feed.splits).Perm (Feed.rows inputs) :=
    Feed.rowsOf_perm (List.flatMap_def (f := Feed.splits) ▸ hweave.perm)
  obtain ⟨output, houtput⟩ := exists_schemaOver hkeys fun a ha =>
    (haggregates a ha).2.imp fun _ => And.left
  obtain ⟨g, hg, _⟩ := resolve_of_schemaOver houtput
  obtain ⟨hcolumns, slots, hslots, hover, _⟩ := resolve_ok hg
  have hdefined : ∀ s ∈ slots, s.Defined schema := fun s hs => by
    obtain ⟨a, ha, hslot⟩ := exists_of_forall₂ (mapM_ok hslots) hs
    obtain ⟨havg, t, ht, hsum⟩ := haggregates a ha
    obtain rfl : s.result = t := Except.ok.inj ((slot_ok hslot).2.2.symm.trans ht)
    exact slot_defined hslot havg hsum
  obtain ⟨p, hp⟩ : ∃ p, groupProcess keys aggregates emptyRow w.batchRows schema = .ok p := by
    rw [groupProcess, hg]
    exact ⟨_, rfl⟩
  have hrun : (Operator.group keys aggregates emptyRow).run w arrival inputs = p.run feed :=
    (congrArg (Process.runOn (groupProcess keys aggregates emptyRow w.batchRows)) hgather).trans
      (Process.runOn_ok hended.schema_eq hp)
  refine ⟨feed, g.keyColumns, hgather, hweave, (mapM_ok hcolumns).imp fun _ _ => keyColumn_ok, ?_⟩
  rw [hrun]
  rcases groupProcess_run hended hg hover hslots hdefined (fun r hmem => hr r (hrows.mem_iff.mp hmem)) hp with
    ⟨hsum, hwritten⟩ | ⟨hsum, out, hout, hwritten⟩
  · rw [hwritten]
    exact .inl ⟨hsum, rfl, rfl⟩
  · have hbatches := StreamWriter.rowsOf_batches { schema := g.output, rows := out }
      (Nat.le_max_right w.batchRows 1)
    rw [hwritten, ← hrows.length_eq]
    refine .inr ⟨hsum, hbatches.symm ▸ hout, ?_, fun s hs => StreamWriter.rowCount_batches hs⟩
    rw [← length_rowsOf, hbatches]

end Run

section Sales

def salesSchema : Schema := { columns := [⟨"region", .utf8⟩, ⟨"count", .int64⟩] }

def salesRow (region : String) (count : Option Int64) : Row :=
  { values := [.text region, (count.map Value.int64).getD .null] }

def salesFeed (splits : List (List (String × Option Int64))) : Feed :=
  .ofSplits salesSchema (splits.map fun sales =>
    { schema := salesSchema, rows := sales.map fun (region, count) => salesRow region count })

theorem salesFeed_ended (splits : List (List (String × Option Int64))) :
    (salesFeed splits).Ended salesSchema ∧ (salesFeed splits).Under salesSchema := by
  refine ⟨⟨rfl, rfl⟩, fun s h => (Except.ok.inj h).symm, List.forall_mem_map.mpr fun sales _ => ⟨rfl, ?_⟩⟩
  exact List.forall_mem_map.mpr fun _ _ => ⟨rfl, rfl, rfl⟩

theorem salesRow_conforms (region : String) (count : Option Int64) :
    (salesRow region count).Conforms salesSchema := by
  refine ⟨⟨rfl, rfl, rfl⟩, .cons (.inr rfl) (.cons ?_ .nil)⟩
  cases count with
  | none => exact .inl rfl
  | some n => exact .inr rfl

theorem salesFeed_conforms (splits : List (List (String × Option Int64))) :
    ∀ r ∈ Feed.rows [salesFeed splits], r.Conforms salesSchema := by
  intro r hr
  obtain ⟨f, hf, hr⟩ := List.mem_flatMap.mp hr
  obtain rfl := List.mem_singleton.mp hf
  obtain ⟨s, hs, hr⟩ := List.mem_flatMap.mp hr
  obtain ⟨sales, _, rfl⟩ := List.mem_map.mp hs
  obtain ⟨_, _, rfl⟩ := List.mem_map.mp hr
  exact salesRow_conforms _ _

/-- The sales of each region: how many there are, their sum, and the least of them. -/
def salesTotals : List Aggregate :=
  [⟨.count, none, "sales"⟩, ⟨.sum, some "count", "sum"⟩, ⟨.min, some "count", "least"⟩]

/-- A sum that leaves its range and comes back. -/
def salesBeyond : List (List (String × Option Int64)) :=
  [[("n", some Int64.maxValue), ("s", none)], [("n", some 1), ("n", some (-1))]]

/-- Two regions, one of them with a sale of unknown size. -/
def salesWithin : List (List (String × Option Int64)) :=
  [[("s", some 4), ("n", some 7)], [], [("s", none), ("s", some 2)]]

theorem salesBeyond_overflows :
    SumOverflows salesSchema [0] salesTotals (Feed.rows [salesFeed salesBeyond]) := by
  refine ⟨groupKey [0] (salesRow "n" none), ?_, ⟨.sum, some "count", "sum"⟩, by decide, rfl, 1, rfl,
    [.int64 Int64.maxValue, .int64 1], _, ?_, ⟨_, .cons rfl (.cons rfl .nil), rfl⟩, ?_⟩
  · exact List.mem_cons_self
  · exact ⟨[.int64 (-1)], by decide +kernel⟩
  · exact fun h => absurd h.2 (by decide)

theorem group_aggregates_sales :
    ((Operator.group ["region"] salesTotals false).run (emptyWorkplace 1) []
        [salesFeed salesBeyond]).outcome = .error (.arithmetic .overflow) ∧
      GroupRows salesSchema [0] salesTotals false (Feed.rows [salesFeed salesWithin])
        (rowsOf ((Operator.group ["region"] salesTotals false).run (emptyWorkplace 1) []
          [salesFeed salesWithin]).splits) ∧
      (rowsOf ((Operator.group ["region"] salesTotals false).run (emptyWorkplace 1) []
          [salesFeed salesWithin]).splits).map (·.values) =
        [[.text "s", .int64 3, .int64 6, .int64 2], [.text "n", .int64 1, .int64 7, .int64 7]] ∧
      rowsOf ((Operator.group [] salesTotals true).run (emptyWorkplace 1) [] [salesFeed []]).splits =
        [defaultRow salesTotals] := by
  have haggregates : ∀ a ∈ salesTotals, a.func ≠ .avg ∧
      ∃ t, a.typeIn salesSchema = .ok t ∧ (a.func = .sum → t.isFloat = false) := by
    refine List.forall_mem_cons.mpr ⟨⟨by decide, .int64, rfl, fun _ => rfl⟩, ?_⟩
    refine List.forall_mem_cons.mpr ⟨⟨by decide, .int64, rfl, fun _ => rfl⟩, ?_⟩
    exact List.forall_mem_singleton.mpr ⟨by decide, .int64, rfl, fun _ => rfl⟩
  have hregion : ∀ k ∈ ["region"], ∃ c, salesSchema.indexOf? k = some c :=
    List.forall_mem_singleton.mpr ⟨0, rfl⟩
  have hgroups := fun splits => group_aggregates (emptyWorkplace 1) [] false
    (List.cons_ne_nil (salesFeed splits) []) (List.forall_mem_singleton.mpr (salesFeed_ended splits))
    (salesFeed_conforms splits) hregion haggregates
  have hvalues : (rowsOf ((Operator.group ["region"] salesTotals false).run (emptyWorkplace 1) []
      [salesFeed salesWithin]).splits).map (·.values) =
        [[.text "s", .int64 3, .int64 6, .int64 2], [.text "n", .int64 1, .int64 7, .int64 7]] := by
    decide +kernel
  refine ⟨?_, ?_, hvalues, ?_⟩
  · obtain ⟨_, _, hfeed, _, hcolumns, ⟨_, _, houtcome⟩ | ⟨hsum, _⟩⟩ := hgroups salesBeyond
    · exact houtcome
    · cases hfeed
      obtain _ | ⟨hcolumn, hnone⟩ := hcolumns
      cases hcolumn
      cases hnone
      exact absurd salesBeyond_overflows hsum
  · obtain ⟨_, _, hfeed, _, hcolumns, ⟨_, hnone, _⟩ | ⟨_, hrows, _⟩⟩ := hgroups salesWithin
    · rw [hnone] at hvalues
      cases hvalues
    · cases hfeed
      obtain _ | ⟨hcolumn, hnone⟩ := hcolumns
      cases hcolumn
      cases hnone
      exact hrows
  · obtain ⟨_, _, hfeed, _, hcolumns, hrun⟩ := group_aggregates (emptyWorkplace 1) [] true
      (List.cons_ne_nil (salesFeed []) []) (List.forall_mem_singleton.mpr (salesFeed_ended []))
      (salesFeed_conforms []) (List.forall_mem_nil _) haggregates
    cases hfeed
    cases hcolumns
    obtain ⟨⟨_, hk, _⟩, _⟩ | ⟨_, hrows, _⟩ := hrun
    · cases hk
    · exact (if_pos ⟨rfl, rfl, rfl⟩).mp hrows

end Sales

end QueryCluster
