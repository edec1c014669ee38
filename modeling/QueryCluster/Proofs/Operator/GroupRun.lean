import QueryCluster.Proofs.Operator.Grouping

/-!
# Groupings without floats

If no float is a group key, is added up or is compared for an extreme, and nothing is averaged, then
a grouping does not see the order of its input, and its rows fit the columns that the schema of the
plan gives them.
-/
namespace QueryCluster

open StreamWriter (batches)

/-- A grouping that depends on no float. -/
structure ExactGroup (schema : Schema) (keys : List String) (aggregates : List Aggregate) :
    Prop where
  keys : ∀ k ∈ keys, ∀ t, schema.typeOf k = .ok t → t.isFloat = false
  average : ∀ a ∈ aggregates, a.func ≠ .avg
  arguments : ∀ a ∈ aggregates, a.func ≠ .count → ∀ c, a.column = some c →
    ∀ t, schema.typeOf c = .ok t → t.isFloat = false

/-- A slot whose results have its type. -/
structure AggregateSlot.Yields (columns : List Field) (s : AggregateSlot) : Prop where
  whole : s.func = .count ∨ s.func = .sum → s.result = .int64
  extreme : s.func = .min ∨ s.func = .max → ∀ c, s.argument = some c →
    ∃ f, columns[c]? = some f ∧ f.type = s.result

section Slots

variable {schema : Schema} {keys : List String} {aggregates : List Aggregate}

theorem argumentColumn_ok {a : Aggregate} {c : Nat}
    (h : Grouping.argumentColumn schema a = .ok (some c)) :
    ∃ name f, a.column = some name ∧ schema.columns[c]? = some f ∧
      schema.typeOf name = .ok f.type := by
  rw [Grouping.argumentColumn] at h
  split at h
  · cases h
  · rename_i name hname
    split at h
    · rename_i i hi
      cases h
      obtain ⟨f, hf, htype⟩ := Schema.exists_of_indexOf? hi
      exact ⟨name, f, hname, hf, htype⟩
    · cases h

theorem typeIn_ok {a : Aggregate} {t : DataType} (h : a.typeIn schema = .ok t) :
    ∃ argument, Aggregate.typeOver? a.func argument = some t ∧
      (∀ name, a.column = some name → ∃ u, schema.typeOf name = .ok u ∧ argument = some u) ∧
      (a.column = none → argument = none) := by
  obtain ⟨argument, harg, h⟩ := bind_ok h
  rw [Aggregate.argumentType] at harg
  refine ⟨argument, ?_, fun name hname => ?_, fun hnone => ?_⟩
  · rcases ht : Aggregate.typeOver? a.func argument with _ | u
    · rw [ht] at h
      cases h
    · rw [ht] at h
      exact congrArg some (Except.ok.inj h)
  · rw [hname] at harg
    rcases hu : schema.typeOf name with e | u
    · simp only [hu] at harg
      cases harg
    · simp only [hu] at harg
      exact ⟨u, rfl, (Except.ok.inj harg).symm⟩
  · rw [hnone] at harg
    exact (Except.ok.inj harg).symm

theorem slot_ok {a : Aggregate} {s : AggregateSlot} (h : Aggregate.slot schema a = .ok s) :
    s.func = a.func ∧ Grouping.argumentColumn schema a = .ok s.argument ∧
      a.typeIn schema = .ok s.result := by
  obtain ⟨argument, harg, h⟩ := bind_ok h
  obtain ⟨result, hresult, h⟩ := bind_ok h
  cases h
  exact ⟨rfl, harg, mapError_ok hresult⟩

theorem sum_type {argument : Option DataType} {t : DataType}
    (h : Aggregate.typeOver? .sum argument = some t) :
    ∃ u, argument = some u ∧ (u.isFloat = false → t = .int64) := by
  cases argument with
  | none => cases h
  | some u =>
    refine ⟨u, rfl, fun hu => ?_⟩
    have h : (if u.isFloat then some DataType.float64 else if u.isNumeric then some .int64 else none) =
      some t := h
    rw [hu, if_neg (by simp)] at h
    split at h
    · exact (Option.some.inj h).symm
    · cases h

variable {a : Aggregate} {s : AggregateSlot}

theorem slot_steady (hx : ExactGroup schema keys aggregates) (ha : a ∈ aggregates)
    (h : Aggregate.slot schema a = .ok s) :
    s.Steady schema.columns ∧ s.Yields schema.columns := by
  obtain ⟨hfunc, hargument, htype⟩ := slot_ok h
  obtain ⟨argument, hover, hsome, hnone⟩ := typeIn_ok htype
  have hsum : s.func = .sum → s.result = .int64 := by
    intro hs
    have ha' : a.func = .sum := hfunc ▸ hs
    rw [ha'] at hover
    obtain ⟨u, rfl, hu⟩ := sum_type hover
    rcases hc : a.column with _ | name
    · cases hnone hc
    · obtain ⟨v, hv, huv⟩ := hsome name hc
      cases huv
      exact hu (hx.arguments a ha (by simp [ha']) name hc _ hv)
  refine ⟨⟨⟨hfunc ▸ hx.average a ha, fun hs => by rw [hsum hs]; rfl⟩, fun c hc hcount => ?_⟩,
    ⟨fun hs => ?_, fun hs c hc => ?_⟩⟩
  · rw [hc] at hargument
    obtain ⟨name, f, hname, hf, hft⟩ := argumentColumn_ok hargument
    exact ⟨f, hf, hx.arguments a ha (hfunc ▸ hcount) name hname _ hft⟩
  · rcases hs with hs | hs
    · rw [hfunc] at hs
      rw [hs] at hover
      exact (Option.some.inj hover).symm
    · exact hsum hs
  · rw [hc] at hargument
    obtain ⟨name, f, hname, hf, hft⟩ := argumentColumn_ok hargument
    obtain ⟨u, hu, rfl⟩ := hsome name hname
    obtain rfl : f.type = u := Except.ok.inj (hft.symm.trans hu)
    refine ⟨f, hf, ?_⟩
    rw [hfunc] at hs
    rcases hs with hs | hs
    · rw [hs] at hover
      exact Option.some.inj hover
    · rw [hs] at hover
      exact Option.some.inj hover

theorem groupable_of_exact {keyColumns : List Nat} {slots : List AggregateSlot}
    (hx : ExactGroup schema keys aggregates)
    (hk : keys.mapM (Grouping.keyColumn schema) = .ok keyColumns)
    (hs : aggregates.mapM (Aggregate.slot schema) = .ok slots) :
    Groupable schema.columns keyColumns slots ∧ ∀ s ∈ slots, s.Yields schema.columns := by
  refine ⟨⟨fun c hc => ?_, fun s hmem => ?_⟩, fun s hmem => ?_⟩
  · obtain ⟨k, hkey, hcolumn⟩ := exists_of_forall₂ (mapM_ok hk) hc
    obtain ⟨f, hf, htype⟩ := Schema.exists_of_indexOf? (keyColumn_ok hcolumn)
    exact ⟨f, hf, hx.keys k hkey _ htype⟩
  · obtain ⟨a, ha, hslot⟩ := exists_of_forall₂ (mapM_ok hs) hmem
    exact (slot_steady hx ha hslot).1
  · obtain ⟨a, ha, hslot⟩ := exists_of_forall₂ (mapM_ok hs) hmem
    exact (slot_steady hx ha hslot).2

end Slots

section Typed

variable {columns : List Field} {rows : List Row}

theorem extremeOf_fits {side : Ordering} (hside : side ≠ .eq) {t : DataType} {vs : List Value}
    (hvs : ∀ v ∈ vs, v.Fits t) : ((Aggregate.extremeOf side vs).getD .null).Fits t := by
  by_cases hne : vs = []
  · subst hne
    exact .inl rfl
  · obtain ⟨m, hm, hext, _⟩ := Aggregate.extremeOf_spec hside hvs hne
    rw [hext]
    exact hvs m hm

/-- The value of an aggregate has the type of the aggregate. -/
theorem valueOver_fits {s : AggregateSlot} (hs : s.Steady columns) (hy : s.Yields columns)
    (hr : ∀ r ∈ rows, r.Typed columns) {v : Value}
    (h : Aggregate.valueOver s.func s.result s.argument rows = .ok v) : v.Fits s.result := by
  rcases s with ⟨func, result, argument⟩
  obtain ⟨⟨havg, _⟩, _⟩ := hs
  obtain ⟨hwhole, hextreme⟩ := hy
  cases argument with
  | none =>
    cases func with
    | count =>
      cases h
      exact .inr (congrArg some (hwhole (.inl rfl)).symm)
    | sum | min | max =>
      cases h
      exact .inl rfl
    | avg => exact absurd rfl havg
  | some c =>
    cases func with
    | count =>
      cases h
      exact .inr (congrArg some (hwhole (.inl rfl)).symm)
    | sum =>
      obtain rfl : result = .int64 := hwhole (.inr rfl)
      obtain ⟨xs, _, h⟩ := bind_ok h
      split at h
      · cases h
        exact .inl rfl
      split at h
      · cases h
        exact .inr rfl
      · cases h
    | min =>
      cases h
      obtain ⟨f, hf, rfl⟩ := hextreme (.inl rfl) c rfl
      exact extremeOf_fits (by simp) (present_fits hf hr)
    | max =>
      cases h
      obtain ⟨f, hf, rfl⟩ := hextreme (.inr rfl) c rfl
      exact extremeOf_fits (by simp) (present_fits hf hr)
    | avg => exact absurd rfl havg

/-- The keys of some rows, as the first of them has them, fit the key columns of the grouping. -/
theorem keyValues_fit {schema : Schema} {keys : List String} {keyColumns : List Nat} {ks : List Field}
    (hc : List.Forall₂ (KeyField schema) keys ks)
    (hk : keys.mapM (Grouping.keyColumn schema) = .ok keyColumns)
    (hr : ∀ r ∈ rows, r.Typed schema.columns) :
    List.Forall₂ (fun (f : Field) v => Value.Fits v f.type) ks
      (keyColumns.map fun c => (rows.head?.map (Grouping.valueAt · c)).getD .null) := by
  rw [List.forall₂_map_right_iff]
  refine (forall₂_of_common hc (mapM_ok hk)).imp fun f c h => ?_
  obtain ⟨k, _, hfield, hcolumn⟩ := h
  obtain ⟨f', hf', htype⟩ := Schema.exists_of_indexOf? (keyColumn_ok hcolumn)
  have hsame : f.type = f'.type := Except.ok.inj (hfield.type.symm.trans htype)
  rw [hsame]
  cases rows with
  | nil => exact .inl rfl
  | cons r rest => exact (hr r List.mem_cons_self).valueAt_fits hf'

/-- The row of a group fits the columns of the grouping. -/
theorem groupRow_typed {schema : Schema} {keys : List String} {aggregates : List Aggregate}
    {keyColumns : List Nat} {slots : List AggregateSlot} {ks as : List Field}
    (hx : ExactGroup schema keys aggregates)
    (hk : keys.mapM (Grouping.keyColumn schema) = .ok keyColumns)
    (hs : aggregates.mapM (Aggregate.slot schema) = .ok slots)
    (hc : GroupColumns schema keys aggregates ks as)
    (hr : ∀ r ∈ rows, r.Typed schema.columns) {out : Row}
    (h : groupRow keyColumns slots rows = .ok out) : out.Typed (ks ++ as) := by
  obtain ⟨results, hresults, h⟩ := bind_ok h
  cases h
  refine ⟨List.rel_append (keyValues_fit hc.keys hk hr) ?_, rfl, rfl⟩
  have hfields := forall₂_of_common (mapM_ok hs) hc.aggregates
  refine (forall₂_of_common hfields (mapM_ok (mapError_ok hresults))).imp fun f v h => ?_
  obtain ⟨s, hmem, ⟨a, ha, hslot, hfield⟩, hv⟩ := h
  have hsame : f.type = s.result :=
    Except.ok.inj (hfield.type.symm.trans (slot_ok hslot).2.2)
  obtain ⟨hsteady, hyields⟩ := slot_steady hx ha hslot
  rw [hsame]
  exact valueOver_fits hsteady hyields hr hv

end Typed

section Run

variable {schema : Schema} {keys : List String} {aggregates : List Aggregate} {emptyRow : Bool}
  {batchRows : Nat} {p : Process (List Group)}

theorem groupProcess_ok (h : groupProcess keys aggregates emptyRow batchRows schema = .ok p) :
    ∃ g, Grouping.resolve keys aggregates schema = .ok g ∧ p.schema = g.output ∧ p.start = [] ∧
      (∀ groups, p.finish groups =
        batches { schema := g.output, rows := (g.closed emptyRow groups).map Group.row }
          (max batchRows 1)) ∧
      ∀ groups s groups' out, p.step groups s = .ok (groups', out) →
        out = [] ∧ s.rows.foldlM g.addRow groups = .ok groups' := by
  obtain ⟨g, hg, h⟩ := bind_ok h
  cases h
  refine ⟨g, hg, rfl, rfl, fun _ => rfl, fun groups s groups' out h => ?_⟩
  obtain ⟨next, hnext, h⟩ := bind_ok h
  cases h
  exact ⟨rfl, mapError_ok hnext⟩

/-- The groups behind some splits. -/
theorem answer_group {g : Grouping} {slots : List AggregateSlot} (hg : g.Over slots)
    (hstep : ∀ groups s groups' out, p.step groups s = .ok (groups', out) →
      out = [] ∧ s.rows.foldlM g.addRow groups = .ok groups')
    {splits out : List Split} {rows : List Row} {groups groups' : List Group}
    (hgroups : Grouped g slots rows groups) (h : p.answer groups splits = (out, .ok groups')) :
    out = [] ∧ Grouped g slots (rows ++ rowsOf splits) groups' := by
  induction splits generalizing rows groups out with
  | nil =>
    cases h
    exact ⟨rfl, by rwa [rowsOf_nil, List.append_nil]⟩
  | cons s splits ih =>
    rw [Process.answer] at h
    rcases hn : p.step groups s with e | ⟨next, written⟩
    · rw [hn] at h
      cases h
    rw [hn] at h
    rcases hr : p.answer next splits with ⟨rest, r⟩
    simp only [hr] at h
    cases h
    obtain ⟨rfl, hrows⟩ := hstep groups s next written hn
    obtain ⟨rfl, hall⟩ := ih (hgroups.addRows hg hrows) hr
    rw [List.append_assoc] at hall
    exact ⟨rfl, hall⟩

/-- A grouping that ends well has taken in all rows of its inputs, and writes their groups. -/
theorem group_run_grouped {w : Workplace} {arrival : List Nat} {feeds : List Feed} {stats : Stats}
    (h : ((Operator.group keys aggregates emptyRow).run w arrival feeds).outcome = .ok stats) :
    ∃ given g taken groups, feeds ≠ [] ∧ (∀ f ∈ feeds, f.Ended given) ∧
      Grouping.resolve keys aggregates given = .ok g ∧ taken.Perm (Feed.rows feeds) ∧
      (∀ slots, g.Over slots → Grouped g slots taken groups) ∧
      ((Operator.group keys aggregates emptyRow).run w arrival feeds).schema = some g.output ∧
      ((Operator.group keys aggregates emptyRow).run w arrival feeds).splits =
        batches { schema := g.output, rows := (g.closed emptyRow groups).map Group.row }
          (max w.batchRows 1) := by
  obtain ⟨given, p, hp, hne, hended, splits, groups, out, hperm, ha, hschema, hsplits⟩ :=
    Process.runOn_gather_ok h
  obtain ⟨g, hresolve, houtput, hstart, hfinish, hstep⟩ := groupProcess_ok hp
  rw [hstart] at ha
  obtain ⟨_, slots, _, hg, _⟩ := resolve_ok hresolve
  obtain ⟨rfl, _⟩ := answer_group hg hstep Grouped.start ha
  refine ⟨given, g, rowsOf splits, groups, hne, hended, hresolve, Feed.rowsOf_perm hperm,
    fun slots hg => ?_, hschema.trans (congrArg some houtput), ?_⟩
  · exact (answer_group hg hstep Grouped.start ha).2
  · rw [← hfinish groups]
    exact hsplits

/-- A grouping without faults writes the groups of all its inputs. -/
theorem group_run_ok {w : Workplace} {arrival : List Nat} {feeds : List Feed} {stats : Stats}
    (hx : ExactGroup schema keys aggregates) (hu : ∀ f ∈ feeds, f.Under schema)
    (hr : ∀ r ∈ Feed.rows feeds, r.Typed schema.columns)
    (h : ((Operator.group keys aggregates emptyRow).run w arrival feeds).outcome = .ok stats) :
    ∃ keyColumns slots ks as, keys.mapM (Grouping.keyColumn schema) = .ok keyColumns ∧
      aggregates.mapM (Aggregate.slot schema) = .ok slots ∧
      GroupColumns schema keys aggregates ks as ∧
      ∃ rows out, rows.Perm (Feed.rows feeds) ∧ Wrote keyColumns slots emptyRow rows out ∧
        (∀ r ∈ out, r.Typed (ks ++ as)) ∧
        ((Operator.group keys aggregates emptyRow).run w arrival feeds).Gives
          { columns := ks ++ as } out := by
  obtain ⟨given, g, taken, groups, hne, hended, hresolve, hrows, hgrouped, hschema, hwritten⟩ :=
    group_run_grouped h
  obtain rfl : given = schema := by
    obtain ⟨f, hf⟩ := List.exists_mem_of_ne_nil feeds hne
    exact (hu f hf).schema_eq given (hended f hf).schema_eq
  obtain ⟨hkeys, slots, hslots, hg, ks, as, hcolumns, hgoutput⟩ := resolve_ok hresolve
  have hgroupable := groupable_of_exact hx hkeys hslots
  have hwrote : Wrote g.keyColumns slots emptyRow taken _ :=
    (hgrouped slots hg).wrote (fun s hs => (hgroupable.1.slots s hs).exact) hg
  have htyped : ∀ r ∈ (g.closed emptyRow groups).map Group.row, r.Typed (ks ++ as) := by
    intro r hmem
    obtain ⟨sub, hsub, hrow⟩ := hwrote.exists_of_mem hmem
    exact groupRow_typed hx hkeys hslots hcolumns
      (fun t ht => hr t (hrows.mem_iff.mp (hsub t ht))) hrow
  refine ⟨g.keyColumns, slots, ks, as, hkeys, hslots, hcolumns, taken, _, hrows, hwrote, htyped, ?_⟩
  refine ⟨hschema.trans (congrArg some hgoutput), fun s hs => ?_, ?_⟩
  · rw [hwritten, hgoutput] at hs
    refine StreamWriter.batches_under ⟨rfl, fun r hr => ?_⟩ (by omega) hs
    have hfits : r.Typed (Schema.columns { columns := ks ++ as }) := htyped r hr
    exact hfits.fits
  · rw [hwritten, StreamWriter.rowsOf_batches _ (by omega)]

end Run

end QueryCluster
