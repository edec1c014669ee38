import QueryCluster.Operator.Run
import QueryCluster.Proofs.Operator.Rowwise
import QueryCluster.Proofs.Operator.Tally

/-!
# What a grouping writes

While rows come in, every group holds the rows that have its key bytes, and no two groups have the
same. So a grouping that meets no fault writes for each key among its rows the row that the plan
means for that key.
-/
namespace QueryCluster

/-- Two lists that belong to a third one, element by element. -/
theorem forall₂_of_common {α β γ : Type} {R : α → β → Prop} {S : α → γ → Prop} {as : List α}
    {bs : List β} {cs : List γ} (hr : List.Forall₂ R as bs) (hs : List.Forall₂ S as cs) :
    List.Forall₂ (fun b c => ∃ a ∈ as, R a b ∧ S a c) bs cs := by
  induction hr generalizing cs with
  | nil =>
    cases hs
    exact .nil
  | cons hab _ ih =>
    obtain _ | ⟨hac, hrest⟩ := hs
    refine .cons ⟨_, List.mem_cons_self, hab, hac⟩ ((ih hrest).imp fun b c h => ?_)
    obtain ⟨a, ha, h⟩ := h
    exact ⟨a, List.mem_cons_of_mem _ ha, h⟩

/-- An accumulator for each aggregate has taken in the rows of a group. -/
def Accumulated (slots : List AggregateSlot) (rows : List Row) (as : List Accumulator) : Prop :=
  List.Forall₂ (fun (s : AggregateSlot) a =>
    (Accumulator.start s.func s.result).takeIn s.argument rows = .ok a) slots as

theorem accumulated_fresh (slots : List AggregateSlot) :
    Accumulated slots [] (slots.map fun s => Accumulator.start s.func s.result) := by
  rw [Accumulated, List.forall₂_map_right_iff, List.forall₂_same]
  exact fun s _ => rfl

theorem accumulated_updateAll {slots : List AggregateSlot} {rows : List Row} {r : Row}
    {as as' : List Accumulator} (ha : Accumulated slots rows as)
    (h : Grouping.updateAll r as (slots.map (·.argument)) = .ok as') :
    Accumulated slots (rows ++ [r]) as' := by
  induction ha generalizing as' with
  | nil =>
    cases h
    exact .nil
  | cons hfirst _ ih =>
    obtain ⟨a, ha, h⟩ := bind_ok h
    obtain ⟨rest, hrest, h⟩ := bind_ok h
    cases h
    exact .cons (Accumulator.takeIn_append_ok hfirst ha) (ih hrest)

theorem Accumulated.results {slots : List AggregateSlot} {rows : List Row} {as : List Accumulator}
    (hs : ∀ s ∈ slots, s.Exact) (ha : Accumulated slots rows as) :
    slots.mapM (fun a => Aggregate.valueOver a.func a.result a.argument rows) =
      .ok (as.map Accumulator.result) := by
  refine mapM_eq_ok ?_
  rw [List.forall₂_map_right_iff]
  induction ha with
  | nil => exact .nil
  | cons hfirst _ ih =>
    exact .cons (valueOver_of_takeIn (hs _ List.mem_cons_self) hfirst)
      (ih fun s hm => hs s (List.mem_cons_of_mem _ hm))

/-- The aggregates of a grouping, with their arguments and types. -/
structure Grouping.Over (g : Grouping) (slots : List AggregateSlot) : Prop where
  arguments : g.arguments = slots.map (·.argument)
  fresh : g.fresh = slots.map fun s => Accumulator.start s.func s.result

/-- A group that has taken in some rows. -/
structure Group.Holds (keyColumns : List Nat) (slots : List AggregateSlot) (rows : List Row)
    (h : Group) : Prop where
  values : h.values = keyColumns.map fun c => (rows.head?.map (Grouping.valueAt · c)).getD .null
  accumulators : Accumulated slots rows h.accumulators

/-- A group is written as the plan means it. -/
theorem Group.Holds.row {keyColumns : List Nat} {slots : List AggregateSlot} {rows : List Row}
    {h : Group} (hs : ∀ s ∈ slots, s.Exact) (hh : h.Holds keyColumns slots rows) :
    groupRow keyColumns slots rows = .ok h.row := by
  have hresults := hh.accumulators.results hs
  rw [groupRow, hresults, Group.row, hh.values]
  rfl

section Insert

variable {g : Grouping} {key : Bytes} {r : Row}

/-- A row goes into the group with its key bytes, or behind all groups if there is none. -/
theorem insertRow_ok {groups groups' : List Group} (h : g.insertRow key r groups = .ok groups') :
    (∃ before x after as, groups = before ++ x :: after ∧ x.key = key ∧
      Grouping.updateAll r x.accumulators g.arguments = .ok as ∧
      groups' = before ++ ⟨x.key, x.values, as⟩ :: after) ∨
    ((∀ x ∈ groups, x.key ≠ key) ∧ ∃ as, Grouping.updateAll r g.fresh g.arguments = .ok as ∧
      groups' = groups ++ [⟨key, g.keyOf r, as⟩]) := by
  induction groups generalizing groups' with
  | nil =>
    obtain ⟨as, has, h⟩ := bind_ok h
    cases h
    exact .inr ⟨by simp, as, has, rfl⟩
  | cons x groups ih =>
    rw [Grouping.insertRow] at h
    split at h
    · rename_i hkey
      obtain ⟨as, has, h⟩ := bind_ok h
      cases h
      exact .inl ⟨[], x, groups, as, rfl, hkey, has, rfl⟩
    · rename_i hkey
      obtain ⟨rest, hrest, h⟩ := bind_ok h
      cases h
      rcases ih hrest with ⟨before, y, after, as, rfl, hy, has, rfl⟩ | ⟨hnone, as, has, rfl⟩
      · exact .inl ⟨x :: before, y, after, as, rfl, hy, has, rfl⟩
      · exact .inr ⟨List.forall_mem_cons.mpr ⟨hkey, hnone⟩, as, has, rfl⟩

end Insert

/-- The groups that some rows make. -/
structure Grouped (g : Grouping) (slots : List AggregateSlot) (rows : List Row)
    (groups : List Group) : Prop where
  nodup : (groups.map (·.key)).Nodup
  keys : ∀ k, k ∈ groups.map (·.key) ↔ k ∈ rows.map (groupKey g.keyColumns)
  holds : ∀ h ∈ groups,
    h.Holds g.keyColumns slots (rows.filter fun r => groupKey g.keyColumns r = h.key)

namespace Grouped

variable {g : Grouping} {slots : List AggregateSlot} {rows more : List Row}
  {groups groups' : List Group}

theorem start : Grouped g slots [] [] :=
  ⟨List.nodup_nil, fun _ => Iff.rfl, fun _ h => by cases h⟩

theorem filter_append (rows : List Row) (r : Row) (k : Bytes) (keyColumns : List Nat) :
    ((rows ++ [r]).filter fun t => groupKey keyColumns t = k) =
      (rows.filter fun t => groupKey keyColumns t = k) ++
        if groupKey keyColumns r = k then [r] else [] := by
  rw [List.filter_append]
  congr 1
  by_cases hk : groupKey keyColumns r = k
  · rw [if_pos hk, List.filter_cons_of_pos (by simpa using hk), List.filter_nil]
  · rw [if_neg hk, List.filter_cons_of_neg (by simpa using hk), List.filter_nil]

/-- A group of another key holds what it held. -/
theorem holds_beside (hgroups : Grouped g slots rows groups) {r : Row} {x : Group} (hx : x ∈ groups)
    (hne : x.key ≠ groupKey g.keyColumns r) :
    x.Holds g.keyColumns slots ((rows ++ [r]).filter fun t => groupKey g.keyColumns t = x.key) := by
  rw [filter_append, if_neg (Ne.symm hne), List.append_nil]
  exact hgroups.holds x hx

/-- The group of a row takes it in and keeps the values of its first row. -/
theorem holds_known (hg : g.Over slots) (hgroups : Grouped g slots rows groups) {r : Row} {x : Group}
    (hx : x ∈ groups) (hkey : x.key = groupKey g.keyColumns r) {as : List Accumulator}
    (has : Grouping.updateAll r x.accumulators g.arguments = .ok as) :
    Group.Holds g.keyColumns slots ((rows ++ [r]).filter fun t => groupKey g.keyColumns t = x.key)
      ⟨x.key, x.values, as⟩ := by
  have hheld := hgroups.holds x hx
  rw [hg.arguments] at has
  rw [filter_append, if_pos hkey.symm]
  refine ⟨?_, accumulated_updateAll hheld.accumulators has⟩
  obtain ⟨t, ht, htk⟩ := List.mem_map.mp ((hgroups.keys x.key).mp (List.mem_map_of_mem hx))
  have hsome : (rows.filter fun t => groupKey g.keyColumns t = x.key) ≠ [] :=
    List.ne_nil_of_mem (List.mem_filter.mpr ⟨ht, by simpa using htk⟩)
  rw [List.head?_append_of_ne_nil _ hsome]
  exact hheld.values

/-- The first row of a key makes a group of it alone. -/
theorem holds_fresh (hg : g.Over slots) {r : Row}
    (hfresh : groupKey g.keyColumns r ∉ rows.map (groupKey g.keyColumns)) {as : List Accumulator}
    (has : Grouping.updateAll r g.fresh g.arguments = .ok as) :
    Group.Holds g.keyColumns slots
      ((rows ++ [r]).filter fun t => groupKey g.keyColumns t = groupKey g.keyColumns r)
      ⟨groupKey g.keyColumns r, g.keyOf r, as⟩ := by
  have hnil : (rows.filter fun t => groupKey g.keyColumns t = groupKey g.keyColumns r) = [] := by
    refine List.filter_eq_nil_iff.mpr fun t ht htk => hfresh ?_
    exact List.mem_map.mpr ⟨t, ht, by simpa using htk⟩
  rw [filter_append, hnil, if_pos rfl]
  rw [hg.arguments, hg.fresh] at has
  exact ⟨rfl, accumulated_updateAll (accumulated_fresh slots) has⟩

theorem addRow (hg : g.Over slots) (hgroups : Grouped g slots rows groups) {r : Row}
    (h : g.addRow groups r = .ok groups') : Grouped g slots (rows ++ [r]) groups' := by
  have hkeys := hgroups.keys
  have hnodup := hgroups.nodup
  rcases insertRow_ok h with ⟨before, x, after, as, rfl, hkey, has, rfl⟩ | ⟨hnone, as, has, rfl⟩
  · have hkey : x.key = groupKey g.keyColumns r := hkey
    rw [List.map_append, List.map_cons] at hkeys hnodup
    have hmem : x.key ∈ rows.map (groupKey g.keyColumns) := (hkeys x.key).mp (by simp)
    have hne : ∀ y ∈ before ++ after, y.key ≠ x.key := by
      intro y hy heq
      have hmid := (List.nodup_middle.mp hnodup)
      rw [List.nodup_cons, ← List.map_append] at hmid
      exact hmid.1 (heq ▸ List.mem_map_of_mem hy)
    refine ⟨by simpa using hnodup, fun k => ?_, fun y hy => ?_⟩
    · rw [List.map_append, List.map_cons, hkeys k, List.map_append, List.mem_append]
      refine ⟨.inl, fun hk => hk.elim id fun hk => ?_⟩
      rwa [List.mem_singleton.mp hk, ← hkey]
    rw [List.mem_append, List.mem_cons, or_left_comm, ← List.mem_append] at hy
    rcases hy with rfl | hy
    · exact hgroups.holds_known hg (List.mem_append_right _ List.mem_cons_self) hkey has
    · refine hgroups.holds_beside ?_ (hkey ▸ hne y hy)
      rw [List.mem_append, List.mem_cons]
      exact (List.mem_append.mp hy).imp id .inr
  · have hfresh : groupKey g.keyColumns r ∉ groups.map (·.key) := fun hm => by
      obtain ⟨x, hx, hk⟩ := List.mem_map.mp hm
      exact hnone x hx hk
    refine ⟨?_, fun k => ?_, fun y hy => ?_⟩
    · rw [List.map_append, List.map_singleton]
      refine List.nodup_append.mpr ⟨hnodup, List.nodup_singleton _, fun a ha b hb hab => hfresh ?_⟩
      have hb : b = groupKey g.keyColumns r := List.mem_singleton.mp hb
      rwa [← hb, ← hab]
    · rw [List.map_append, List.map_append, List.mem_append, List.mem_append, hkeys k]
      rfl
    rcases List.mem_append.mp hy with hy | hy
    · exact hgroups.holds_beside hy (hnone y hy)
    · rw [List.mem_singleton.mp hy]
      exact holds_fresh hg (fun hmem => hfresh ((hkeys _).mpr hmem)) has

theorem addRows (hg : g.Over slots) (hgroups : Grouped g slots rows groups)
    (h : more.foldlM g.addRow groups = .ok groups') : Grouped g slots (rows ++ more) groups' := by
  induction more generalizing rows groups with
  | nil =>
    cases h
    rwa [List.append_nil]
  | cons r more ih =>
    rw [List.foldlM_cons] at h
    obtain ⟨next, hnext, h⟩ := bind_ok h
    have := ih (hgroups.addRow hg hnext) h
    rwa [List.append_assoc] at this

theorem eq_nil_iff (h : Grouped g slots rows groups) : groups = [] ↔ rows = [] := by
  refine ⟨fun hn => List.eq_nil_iff_forall_not_mem.mpr fun r hr => ?_, fun hn => ?_⟩
  · have := (h.keys (groupKey g.keyColumns r)).mpr (List.mem_map_of_mem hr)
    rw [hn] at this
    cases this
  · refine List.eq_nil_iff_forall_not_mem.mpr fun x hx => ?_
    have := (h.keys x.key).mp (List.mem_map_of_mem hx)
    rw [hn] at this
    cases this

/-- The values at the front of a written row have the key bytes of its group. -/
theorem keyBytes_row (hg : Grouped g slots rows groups) {h : Group} (hh : h ∈ groups) :
    keyBytes (h.row.values.take g.keyColumns.length) = h.key := by
  obtain ⟨t, ht, hkey⟩ := List.mem_map.mp ((hg.keys h.key).mp (List.mem_map_of_mem hh))
  have hsome : (rows.filter fun r => groupKey g.keyColumns r = h.key) ≠ [] :=
    List.ne_nil_of_mem (List.mem_filter.mpr ⟨ht, decide_eq_true hkey⟩)
  obtain ⟨first, others, hown⟩ := List.exists_cons_of_ne_nil hsome
  have hvalues := (hg.holds h hh).values
  have hfirst : first ∈ rows.filter fun r => groupKey g.keyColumns r = h.key :=
    hown ▸ List.mem_cons_self
  rw [hown] at hvalues
  have hlength : h.values.length = g.keyColumns.length := by rw [hvalues, List.length_map]
  rw [Group.row, ← hlength, List.take_left, hvalues]
  exact of_decide_eq_true (List.mem_filter.mp hfirst).2

/-- A worker that need not stand in for no rows writes one row for each key. -/
theorem written_keys (h : Grouped g slots rows groups) {emptyRow : Bool}
    (hrows : g.keyColumns = [] → emptyRow → rows ≠ []) :
    (((g.closed emptyRow groups).map Group.row).map fun r =>
      keyBytes (r.values.take g.keyColumns.length)).Perm (rows.map (groupKey g.keyColumns)).dedup := by
  have hclosed : g.closed emptyRow groups = groups := by
    rw [Grouping.closed, if_neg]
    simp only [Bool.and_eq_true, List.isEmpty_iff, h.eq_nil_iff]
    exact fun ⟨⟨hnone, hkeys⟩, hempty⟩ => hrows hkeys hempty hnone
  have hsame : (groups.map Group.row).map (fun r => keyBytes (r.values.take g.keyColumns.length)) =
      groups.map (·.key) := by
    rw [List.map_map]
    exact List.map_congr_left fun x hx => h.keyBytes_row hx
  rw [hclosed, hsame]
  exact (List.perm_ext_iff_of_nodup h.nodup (List.nodup_dedup _)).mpr fun k => by
    rw [h.keys k, List.mem_dedup]

/-- Without keys, a worker writes one row if it has rows or stands in for none, and else nothing. -/
theorem length_written (h : Grouped g slots rows groups) (hkeys : g.keyColumns = []) (emptyRow : Bool) :
    ((g.closed emptyRow groups).map Group.row).length = if rows ≠ [] ∨ emptyRow then 1 else 0 := by
  rw [List.length_map]
  by_cases hrows : rows = []
  · have hnone := h.eq_nil_iff.mpr hrows
    cases emptyRow <;> simp [Grouping.closed, hnone, hkeys, hrows]
  · rw [if_pos (.inl hrows)]
    have hlength := (@written_keys _ _ _ _ h emptyRow fun _ _ => hrows).length_eq
    rw [List.length_map, List.length_map] at hlength
    rw [hlength]
    have hall : ∀ k ∈ (rows.map (groupKey g.keyColumns)).dedup, k = keyBytes [] := by
      intro k hk
      obtain ⟨r, _, rfl⟩ := List.mem_map.mp (List.mem_dedup.mp hk)
      rw [hkeys]
      rfl
    obtain ⟨r, hr⟩ := List.exists_mem_of_ne_nil rows hrows
    have hmem := List.mem_dedup.mpr (List.mem_map_of_mem (f := groupKey g.keyColumns) hr)
    have hnodup := List.nodup_dedup (rows.map (groupKey g.keyColumns))
    rw [List.eq_replicate_of_mem hall] at hnodup
    exact Nat.le_antisymm (List.nodup_replicate.mp hnodup) (List.length_pos_of_mem hmem)

end Grouped

/-- A row for each group is what a worker has to write. -/
theorem Grouped.wrote {g : Grouping} {slots : List AggregateSlot} {rows : List Row}
    {groups : List Group} {emptyRow : Bool} (hs : ∀ s ∈ slots, s.Exact) (hg : g.Over slots)
    (h : Grouped g slots rows groups) :
    Wrote g.keyColumns slots emptyRow rows ((g.closed emptyRow groups).map Group.row) := by
  have htally : Tallied g.keyColumns slots rows (groups.map fun h => (h.key, h.row)) := by
    refine ⟨?_, fun k => ?_, fun e he => ?_⟩
    · rw [List.map_map]
      exact h.nodup
    · rw [List.map_map]
      exact h.keys k
    · obtain ⟨x, hx, rfl⟩ := List.mem_map.mp he
      exact (h.holds x hx).row hs
  have hempty : groups.isEmpty ↔ rows = [] := List.isEmpty_iff.trans h.eq_nil_iff
  refine ⟨_, htally, ?_⟩
  by_cases hclosed : rows = [] ∧ g.keyColumns = [] ∧ emptyRow
  · rw [if_pos hclosed]
    obtain ⟨hr, hk, he⟩ := hclosed
    have hfresh : Group.Holds g.keyColumns slots [] ⟨[], [], g.fresh⟩ :=
      ⟨by rw [hk]; rfl, hg.fresh ▸ accumulated_fresh slots⟩
    refine ⟨_, hfresh.row hs, ?_⟩
    rw [Grouping.closed, hempty.mpr hr, hk, he]
    rfl
  · rw [if_neg hclosed]
    have hneg : ¬ ((groups.isEmpty && g.keyColumns.isEmpty && emptyRow) = true) := by
      rw [Bool.and_eq_true, Bool.and_eq_true, hempty, List.isEmpty_iff, and_assoc]
      exact hclosed
    rw [Grouping.closed, if_neg hneg, List.map_map]
    rfl

/-- The column that stands for a key. -/
structure KeyField (schema : Schema) (key : String) (f : Field) : Prop where
  name : f.name = key
  type : schema.typeOf key = .ok f.type

/-- The column that stands for an aggregate. -/
structure AggregateField (schema : Schema) (a : Aggregate) (f : Field) : Prop where
  name : f.name = a.label
  type : a.typeIn schema = .ok f.type

/-- The columns that a grouping gives. -/
structure GroupColumns (schema : Schema) (keys : List String) (aggregates : List Aggregate)
    (keyFields aggregateFields : List Field) : Prop where
  keys : List.Forall₂ (KeyField schema) keys keyFields
  aggregates : List.Forall₂ (AggregateField schema) aggregates aggregateFields

theorem KeyField.unique {schema : Schema} {key : String} {f g : Field} (hf : KeyField schema key f)
    (hg : KeyField schema key g) : f = g :=
  Field.eq_of_typed (hf.name.trans hg.name.symm) hf.type hg.type

theorem AggregateField.unique {schema : Schema} {a : Aggregate} {f g : Field}
    (hf : AggregateField schema a f) (hg : AggregateField schema a g) : f = g :=
  Field.eq_of_typed (hf.name.trans hg.name.symm) hf.type hg.type

theorem GroupColumns.unique {schema : Schema} {keys : List String} {aggregates : List Aggregate}
    {ks ks' as as' : List Field} (h : GroupColumns schema keys aggregates ks as)
    (h' : GroupColumns schema keys aggregates ks' as') : ks = ks' ∧ as = as' := by
  have hkeys : Relator.RightUnique (KeyField schema) := fun _ _ _ => KeyField.unique
  have haggregates : Relator.RightUnique (AggregateField schema) := fun _ _ _ => AggregateField.unique
  exact ⟨List.right_unique_forall₂' hkeys h.keys h'.keys,
    List.right_unique_forall₂' haggregates h.aggregates h'.aggregates⟩

/-- The columns of a grouping, as the schema of the stage has them. -/
theorem groupColumns_ok {s output : Schema} {keys : List String} {aggregates : List Aggregate}
    (h : (Stage.group keys aggregates).schemaOver s = .ok output) :
    ∃ ks as, GroupColumns s keys aggregates ks as ∧ output = { columns := ks ++ as } := by
  obtain ⟨ks, hks, h⟩ := bind_ok h
  obtain ⟨as, has, h⟩ := bind_ok h
  cases h
  refine ⟨ks, as, ⟨(mapM_ok hks).imp fun k f hf => ?_, (mapM_ok has).imp fun a f hf => ?_⟩, rfl⟩
  · obtain ⟨t, ht, hf⟩ := bind_ok hf
    cases hf
    exact ⟨rfl, mapError_ok ht⟩
  · obtain ⟨t, ht, hf⟩ := bind_ok hf
    cases hf
    exact ⟨rfl, ht⟩

section Resolve

variable {schema : Schema} {keys : List String} {aggregates : List Aggregate} {g : Grouping}

theorem keyColumn_ok {k : String} {c : Nat} (h : Grouping.keyColumn schema k = .ok c) :
    schema.indexOf? k = some c := by
  rw [Grouping.keyColumn] at h
  rcases hi : schema.indexOf? k with _ | i
  · rw [hi] at h
    cases h
  · rw [hi] at h
    exact congrArg some (Except.ok.inj h)

theorem Schema.exists_of_indexOf? {name : String} {i : Nat} (h : schema.indexOf? name = some i) :
    ∃ f, schema.columns[i]? = some f ∧ schema.typeOf name = .ok f.type := by
  have hlt : i < schema.columns.length := by
    rw [Schema.indexOf?] at h
    split at h
    · rename_i j hj
      cases h
      exact (List.findIdx?_eq_some_iff_findIdx_eq.mp hj).1
    · exact (List.findIdx?_eq_some_iff_findIdx_eq.mp h).1
  have hf : schema.columns[i]? = some schema.columns[i] := List.getElem?_eq_getElem hlt
  refine ⟨schema.columns[i], hf, ?_⟩
  have hfield : schema.field? name = some schema.columns[i] := by
    rw [Schema.field?, h]
    exact hf
  rw [Schema.typeOf, hfield]

theorem keyFields_ok {keyColumns : List Nat}
    (h : List.Forall₂ (fun k c => Grouping.keyColumn schema k = .ok c) keys keyColumns) :
    List.Forall₂ (KeyField schema) keys ((keys.zip (keyColumns.filterMap (schema.columns[·]?))).map
      fun (name, f) => ⟨name, f.type⟩) := by
  induction h with
  | nil => exact .nil
  | cons hk _ ih =>
    obtain ⟨f, hf, htype⟩ := Schema.exists_of_indexOf? (keyColumn_ok hk)
    rw [List.filterMap_cons_some hf, List.zip_cons_cons, List.map_cons]
    exact .cons ⟨rfl, htype⟩ ih

theorem slots_ok {arguments : List (Option Nat)} {types : List DataType}
    (ha : List.Forall₂ (fun a c => Grouping.argumentColumn schema a = .ok c) aggregates arguments)
    (ht : List.Forall₂ (fun (a : Aggregate) t =>
      (a.typeIn schema).mapError OperatorError.ofType = .ok t) aggregates types) :
    ∃ slots, aggregates.mapM (Aggregate.slot schema) = .ok slots ∧
      arguments = slots.map (·.argument) ∧
      aggregates.zipWith (fun a t => Accumulator.start a.func t) types =
        (slots.map fun s => Accumulator.start s.func s.result) ∧
      List.Forall₂ (AggregateField schema) aggregates
        (aggregates.zipWith (fun a t => ⟨a.label, t⟩) types) := by
  induction ha generalizing types with
  | nil =>
    cases ht
    exact ⟨[], rfl, rfl, rfl, .nil⟩
  | @cons a c _ _ harg _ ih =>
    obtain _ | ⟨htype, hrest⟩ := ht
    rename_i t types
    obtain ⟨slots, hslots, rfl, hstart, hfields⟩ := ih hrest
    have hslot : Aggregate.slot schema a = .ok ⟨a.func, t, c⟩ := by
      rw [Aggregate.slot, harg, htype]
      rfl
    refine ⟨⟨a.func, t, c⟩ :: slots, ?_, rfl, ?_, .cons ⟨rfl, mapError_ok htype⟩ hfields⟩
    · rw [List.mapM_cons, hslot, hslots]
      rfl
    · rw [List.zipWith_cons_cons, hstart]
      rfl

/-- A grouping under a schema that has all its columns. -/
theorem resolve_ok (h : Grouping.resolve keys aggregates schema = .ok g) :
    keys.mapM (Grouping.keyColumn schema) = .ok g.keyColumns ∧
      ∃ slots, aggregates.mapM (Aggregate.slot schema) = .ok slots ∧ g.Over slots ∧
        ∃ ks as, GroupColumns schema keys aggregates ks as ∧ g.output = { columns := ks ++ as } := by
  obtain ⟨keyColumns, hkeys, h⟩ := bind_ok h
  obtain ⟨arguments, harguments, h⟩ := bind_ok h
  obtain ⟨types, htypes, h⟩ := bind_ok h
  cases h
  obtain ⟨slots, hslots, hargs, hstart, hfields⟩ := slots_ok (mapM_ok harguments) (mapM_ok htypes)
  exact ⟨hkeys, slots, hslots, ⟨hargs, hstart⟩, _, _, ⟨keyFields_ok (mapM_ok hkeys), hfields⟩, rfl⟩

end Resolve

end QueryCluster
