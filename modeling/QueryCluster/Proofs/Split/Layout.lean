import QueryCluster.Proofs.Split.Columns
import QueryCluster.Proofs.Split.Sorting
import QueryCluster.Split.Columnar

/-!
# Rows laid out in arrays

The arrays of a split are of one length by themselves, and arrays of one length are those of a split that
every row of it fits. Each operation on arrays does to them what the operation on rows does to the rows, so
it keeps their lengths equal, and it indexes none of them out of bounds.
-/
namespace QueryCluster

theorem mapM_eq_filterMap {α β : Type} {f : α → Option β} {as : List α} (h : ∀ a ∈ as, (f a).isSome) :
    as.mapM f = some (as.filterMap f) := by
  induction as with
  | nil => rfl
  | cons a as ih =>
    obtain ⟨hhead, hrest⟩ := List.forall_mem_cons.mp h
    obtain ⟨b, hb⟩ := Option.isSome_iff_exists.mp hhead
    rw [List.mapM_cons, hb, ih hrest, List.filterMap_cons_some hb]
    rfl

theorem mapM_eq_some {α β : Type} {f : α → Option β} {g : α → β} {as : List α}
    (h : ∀ a ∈ as, f a = some (g a)) : as.mapM f = some (as.map g) := by
  rw [mapM_eq_filterMap fun a ha => by rw [h a ha]; rfl, List.filterMap_congr h]
  exact congrArg some (congrFun List.filterMap_eq_map as)

namespace Split

/-- A split as it lies in memory. -/
def arrays (s : Split) : Columnar where
  schema := s.schema
  columns := s.columns
  keys := s.keyColumns
  flags := s.flagColumns
  orders := s.orders
  rowCount := s.rowCount

theorem arrays_wellFormed (s : Split) : s.arrays.WellFormed := by
  constructor <;> simp [arrays, columns, keyColumns, flagColumns, length_column, length_keyColumn,
    length_flagColumn]

end Split

namespace Columnar

variable {α β : Type}

/-- The rows that arrays hold, as far as the counter says. -/
def split (c : Columnar) : Split where
  schema := c.schema
  rows := (List.range c.rowCount).map fun r =>
    ⟨Split.across c.columns r, Split.across c.keys r, Split.across c.flags r⟩
  orders := c.orders

theorem isSome_across {n r : Nat} (hr : r < n) {arrays : List (List α)} (h : ∀ a ∈ arrays, a.length = n) :
    ∀ a ∈ arrays, (a[r]?).isSome := fun a ha => by
  have hlt : r < a.length := by rw [h a ha]; exact hr
  rw [List.getElem?_eq_getElem hlt]
  rfl

theorem across_eq {n r : Nat} (hr : r < n) {arrays : List (List α)} (h : ∀ a ∈ arrays, a.length = n)
    (d : α) : Split.across arrays r = arrays.map fun a => a[r]?.getD d :=
  Split.filterMap_eq_map_getD (isSome_across hr h) d

/-- Arrays of one length are got back from the rows across them. -/
theorem map_across {n : Nat} {arrays : List (List α)} (h : ∀ a ∈ arrays, a.length = n) (d : α) :
    (List.range arrays.length).map (fun c =>
      (List.range n).map fun r => (Split.across arrays r)[c]?.getD d) = arrays := by
  have harray : ∀ c < arrays.length,
      ((List.range n).map fun r => (Split.across arrays r)[c]?.getD d) = arrays[c]?.getD [] := by
    intro c hc
    have hlength : arrays[c].length = n := h _ (List.getElem_mem hc)
    have hcell : ∀ r ∈ List.range n, (Split.across arrays r)[c]?.getD d = arrays[c][r]?.getD d := by
      intro r hr
      rw [across_eq (List.mem_range.mp hr) h d, List.getElem?_map, List.getElem?_eq_getElem hc]
      rfl
    rw [List.map_congr_left hcell, ← hlength, range_getD, List.getElem?_eq_getElem hc]
    rfl
  rw [List.map_congr_left fun c hc => harray c (List.mem_range.mp hc)]
  exact range_getD arrays []

variable {c : Columnar}

theorem WellFormed.split (h : c.WellFormed) : c.split.WellFormed := by
  intro row hrow
  obtain ⟨r, hr, rfl⟩ := List.mem_map.mp hrow
  have hr := List.mem_range.mp hr
  refine ⟨?_, ?_, ?_⟩
  · rw [across_eq hr h.columnRows .null, List.length_map]
    exact h.columns
  · rw [across_eq hr h.keyRows .null, List.length_map]
    exact h.keys
  · rw [across_eq hr h.flagRows false, List.length_map]
    exact h.flags

theorem WellFormed.arrays_split (h : c.WellFormed) : c.split.arrays = c := by
  have hcolumns := map_across h.columnRows .null
  have hkeys := map_across h.keyRows .null
  have hflags := map_across h.flagRows false
  rw [h.columns] at hcolumns
  rw [h.keys] at hkeys
  rw [h.flags] at hflags
  have hc : c.split.columns = c.columns := (List.map_congr_left fun _ _ => List.map_map).trans hcolumns
  have hk : c.split.keyColumns = c.keys := (List.map_congr_left fun _ _ => List.map_map).trans hkeys
  have hf : c.split.flagColumns = c.flags := (List.map_congr_left fun _ _ => List.map_map).trans hflags
  have hn : c.split.rowCount = c.rowCount := by simp [Columnar.split, Split.rowCount]
  rw [Split.arrays, hc, hk, hf, hn]
  rfl

theorem wellFormed_iff : c.WellFormed ↔ ∃ s : Split, s.WellFormed ∧ s.arrays = c := by
  refine ⟨fun h => ⟨c.split, h.split, h.arrays_split⟩, ?_⟩
  rintro ⟨s, _, rfl⟩
  exact s.arrays_wellFormed

end Columnar

namespace Split

variable {s t : Split}

theorem WellFormed.row_across (hw : s.WellFormed) {r : Nat} (hr : r < s.rows.length) :
    (⟨across s.columns r, across s.keyColumns r, across s.flagColumns r⟩ : Row) = s.rows[r] := by
  rw [across_columns hr, across_keyColumns hr, across_flagColumns hr]
  exact Row.squared_of_fits (hw _ (List.getElem_mem hr))

/-- Nothing is lost of a well-formed split in its arrays. -/
theorem WellFormed.split_arrays (hw : s.WellFormed) : s.arrays.split = s := by
  have hrows : (List.range s.rowCount).map (fun r =>
      (⟨across s.columns r, across s.keyColumns r, across s.flagColumns r⟩ : Row)) = s.rows := by
    apply List.ext_getElem
    · simp [rowCount]
    · intro r _ hr
      rw [List.getElem_map, List.getElem_range, hw.row_across hr]
  rcases s with ⟨schema, rows, orders⟩
  exact congrArg (Split.mk schema · orders) hrows

end Split

/-! ## Operations -/

/-- A split that is refused a change stays as it was. -/
def Split.unlessRefused (s : Split) : Except ShapeFault Split → Option ShapeFault × Split
  | .ok t => (none, t)
  | .error fault => (some fault, s)

namespace Columnar

variable {α : Type}

theorem extendEach_map {ι : Type} (is : List ι) (f g : ι → List α) :
    extendEach (is.map f) (is.map g) = is.map fun i => f i ++ g i := by
  induction is with
  | nil => rfl
  | cons i is ih => rw [List.map_cons, List.map_cons, extendEach, ih, List.map_cons]

theorem empty_eq (schema : Schema) : empty schema = ({ schema } : Split).arrays := by
  have hblank : ∀ (α : Type) n, List.replicate n [] = (List.range n).map fun _ => ([] : List α) :=
    fun α n => by rw [List.map_const', List.length_range]
  rw [empty, hblank, hblank, hblank]
  rfl

theorem ofParts_eq (schema : Schema) (columns keys : List (List Value)) (flags : List (List Bool)) :
    Split.ofColumns schema columns keys flags = (ofParts schema columns keys flags).map split := by
  rw [Split.ofColumns, ofParts]
  split
  · rfl
  split
  · rfl
  simp only
  split
  · rfl
  · rfl

theorem ofParts_wellFormed {schema : Schema} {columns keys : List (List Value)} {flags : List (List Bool)}
    {c : Columnar} (h : ofParts schema columns keys flags = .ok c) : c.WellFormed := by
  rw [ofParts] at h
  split at h
  · cases h
  split at h
  · cases h
  simp only at h
  split at h
  · cases h
  rename_i hcolumns hkeys heven
  obtain ⟨hkeys, hflags⟩ := not_or.mp hkeys
  simp only [Bool.or_eq_true, List.any_eq_true, decide_eq_true_eq, not_or, not_exists, not_and,
    List.mem_append] at heven
  cases h
  exact ⟨not_not.mp hcolumns, not_not.mp hkeys, not_not.mp hflags,
    fun a ha => not_not.mp (heven.1 a (.inl ha)), fun a ha => not_not.mp (heven.1 a (.inr ha)),
    fun a ha => not_not.mp (heven.2 a ha)⟩

variable {s t : Split}

theorem length_columns (s : Split) : s.arrays.columns.length = s.schema.columns.length :=
  s.arrays_wellFormed.columns

theorem length_keys (s : Split) : s.arrays.keys.length = s.schema.keys.length := s.arrays_wellFormed.keys

theorem length_flags (s : Split) : s.arrays.flags.length = s.schema.keys.length := s.arrays_wellFormed.flags

/-- Appended rows lengthen every array. -/
theorem arrays_append (hs : t.Shaped s.schema) :
    ({ s with rows := s.rows ++ t.rows } : Split).arrays = { s.arrays with
      columns := extendEach s.arrays.columns t.arrays.columns
      keys := extendEach s.arrays.keys t.arrays.keys
      flags := extendEach s.arrays.flags t.arrays.flags
      rowCount := s.arrays.rowCount + t.arrays.rowCount } := by
  obtain ⟨hcolumns, hkeys⟩ := hs
  have hcolumn : ({ s with rows := s.rows ++ t.rows } : Split).column =
      fun c => s.column c ++ t.column c := funext fun _ => List.map_append
  have hkey : ({ s with rows := s.rows ++ t.rows } : Split).keyColumn =
      fun k => s.keyColumn k ++ t.keyColumn k := funext fun _ => List.map_append
  have hflag : ({ s with rows := s.rows ++ t.rows } : Split).flagColumn =
      fun k => s.flagColumn k ++ t.flagColumn k := funext fun _ => List.map_append
  simp only [Split.arrays, Split.columns, Split.keyColumns, Split.flagColumns, hcolumns, hkeys,
    extendEach_map, Split.rowCount, List.length_append, hcolumn, hkey, hflag]

theorem append_eq (s t : Split) :
    s.arrays.append t.arrays = Prod.map id Split.arrays (s.unlessRefused (s.append t)) := by
  rw [append, length_columns, length_columns, length_keys, length_keys, Split.append]
  split
  · rfl
  · rename_i hfit
    obtain ⟨hcolumns, hkeys⟩ := not_or.mp hfit
    exact congrArg (Prod.mk none) (arrays_append ⟨not_not.mp hcolumns, not_not.mp hkeys⟩).symm

/-- A cell for each array. -/
theorem map_singleton {n : Nat} {cells : List α} (h : cells.length = n) (d : α) :
    cells.map ([·]) = (List.range n).map fun i => [cells[i]?.getD d] := by
  conv_lhs => rw [← range_getD cells d, h, List.map_map]
  rfl

theorem pushKeyed_eq (s : Split) (values : List Value) (keys : List (Option Value)) :
    s.arrays.pushKeyed values keys =
      some (Prod.map id Split.arrays (s.unlessRefused (s.pushKeyed values keys))) := by
  rw [pushKeyed, length_columns, length_keys, length_flags, Split.pushKeyed]
  split
  · rfl
  split
  · rfl
  rename_i hvalues hkeys
  have hvalues := not_not.mp hvalues
  have hkeys := not_not.mp hkeys
  have hone : ({ s with rows := [Row.withKeys values keys] } : Split).arrays = ⟨s.schema,
      values.map ([·]), (keys.map (·.getD .null)).map ([·]), (keys.map (·.isSome)).map ([·]), s.orders, 1⟩ := by
    rw [map_singleton hvalues .null, map_singleton ((List.length_map _).trans hkeys) .null,
      map_singleton ((List.length_map _).trans hkeys) false]
    rfl
  have happend := arrays_append (s := s) (t := { s with rows := [Row.withKeys values keys] }) ⟨rfl, rfl⟩
  rw [hone] at happend
  rw [if_neg (by omega)]
  exact congrArg (fun c => some (none, c)) happend.symm

theorem push_eq (s : Split) (values : List Value) :
    s.arrays.push values = some (Prod.map id Split.arrays (s.unlessRefused (s.push values))) := by
  rw [push, length_keys, pushKeyed_eq, Split.push]

/-! ### Rows taken out, put in another order and cut -/

/-- What is done to every array does something to the rows. -/
theorem arrays_map (s : Split) (rows : List Row) {f : List Value → List Value} {g : List Bool → List Bool}
    (hcolumn : ∀ c, ({ s with rows } : Split).column c = f (s.column c))
    (hkey : ∀ k, ({ s with rows } : Split).keyColumn k = f (s.keyColumn k))
    (hflag : ∀ k, ({ s with rows } : Split).flagColumn k = g (s.flagColumn k)) :
    ({ s with rows } : Split).arrays = { s.arrays with
      columns := s.arrays.columns.map f
      keys := s.arrays.keys.map f
      flags := s.arrays.flags.map g
      rowCount := rows.length } := by
  have hcolumn : ({ s with rows } : Split).column = f ∘ s.column := funext hcolumn
  have hkey : ({ s with rows } : Split).keyColumn = f ∘ s.keyColumn := funext hkey
  have hflag : ({ s with rows } : Split).flagColumn = g ∘ s.flagColumn := funext hflag
  simp only [Split.arrays, Split.columns, Split.keyColumns, Split.flagColumns, Split.rowCount,
    hcolumn, hkey, hflag, List.map_map]

theorem mapM_across {n r : Nat} (hr : r < n) {arrays : List (List α)} (h : ∀ a ∈ arrays, a.length = n) :
    arrays.mapM (·[r]?) = some (Split.across arrays r) :=
  mapM_eq_filterMap (isSome_across hr h)

/-- What is left of a row shows a null in every array, whether it had a value there or not. -/
theorem getD_map_null (values : List Value) (c : Nat) :
    (values.map fun _ => Value.null)[c]?.getD .null = .null := by
  rw [List.getElem?_map]
  cases values[c]? <;> rfl

theorem set_flagColumn {r : Nat} (hr : r < s.rows.length) (k : Nat) :
    (s.flagColumn k).set r (s.rows[r].flags[k]?.getD false) = s.flagColumn k := by
  have hlt : r < (s.flagColumn k).length := by rwa [Split.length_flagColumn]
  have hcell : s.rows[r].flags[k]?.getD false = (s.flagColumn k)[r] := by simp [Split.flagColumn]
  rw [hcell, List.set_getElem_self]

/-- A taken row leaves nulls in all columns and keys, and its flags. -/
theorem takeRow_eq (hw : s.WellFormed) {r : Nat} (hr : r < s.rows.length) :
    s.arrays.takeRow r = (s.take? r).map (Prod.map id Split.arrays) := by
  obtain ⟨_, _, _, hcolumns, hkeys, hflags⟩ := s.arrays_wellFormed
  have hmoved : s.arrays.takeRow r = some (⟨Split.across s.columns r, Split.across s.keyColumns r,
      Split.across s.flagColumns r⟩, { s.arrays with
        columns := s.arrays.columns.map (·.set r .null), keys := s.arrays.keys.map (·.set r .null) }) := by
    rw [takeRow, mapM_across hr hcolumns, mapM_across hr hkeys, mapM_across hr hflags]
    rfl
  have hleft := arrays_map s (s.rows.set r ⟨s.rows[r].values.map fun _ => .null,
      s.rows[r].keys.map fun _ => .null, s.rows[r].flags⟩) (f := (·.set r .null)) (g := id)
    (fun c => by rw [Split.column, List.map_set, getD_map_null, Split.column])
    (fun k => by rw [Split.keyColumn, List.map_set, getD_map_null, Split.keyColumn])
    (fun k => by rw [Split.flagColumn, List.map_set, ← Split.flagColumn, set_flagColumn hr, id])
  rw [List.map_id, List.length_set] at hleft
  rw [hmoved, hw.row_across hr, Split.take?, List.getElem?_eq_getElem hr]
  exact congrArg (fun c => some (s.rows[r], c)) hleft.symm

theorem mapM_readAt {numbers : List Nat} {array : List α} (h : ∀ i ∈ numbers, i < array.length) :
    numbers.mapM (array[·]?) = some (Split.readAt numbers array) :=
  mapM_eq_filterMap (Split.isSome_readAt h)

/-- Rows are moved in all arrays at once. -/
theorem permute_eq {numbers : List Nat} (h : ∀ i ∈ numbers, i < s.rowCount)
    (hn : numbers.length = s.rowCount) :
    s.arrays.permute numbers = some ({ s with rows := Split.readAt numbers s.rows } : Split).arrays := by
  obtain ⟨_, _, _, hcolumns, hkeys, hflags⟩ := s.arrays_wellFormed
  have hread : ∀ {β : Type} {arrays : List (List β)}, (∀ a ∈ arrays, a.length = s.rowCount) →
      arrays.mapM (fun array => numbers.mapM (array[·]?)) = some (arrays.map (Split.readAt numbers)) :=
    fun ha => mapM_eq_some fun a hm => mapM_readAt fun i hi => by rw [ha a hm]; exact h i hi
  have hlength : (Split.readAt numbers s.rows).length = s.arrays.rowCount := by
    rw [Split.readAt_eq_map h default, List.length_map]
    exact hn
  have hmoved := arrays_map s (Split.readAt numbers s.rows) (f := Split.readAt numbers)
    (g := Split.readAt numbers) (fun _ => (Split.readAt_map _ _ _).symm)
    (fun _ => (Split.readAt_map _ _ _).symm) fun _ => (Split.readAt_map _ _ _).symm
  rw [hlength] at hmoved
  rw [permute, hread hcolumns, hread hkeys, hread hflags, hmoved]
  rfl

theorem keyCell_eq (hw : s.WellFormed) (k i : Nat) : s.arrays.keyCell k i = s.keyCell k i := by
  by_cases hk : k < s.schema.keys.length
  · have hflags : s.arrays.flags[k]? = some (s.flagColumn k) := by
      simp [Split.arrays, Split.flagColumns, hk]
    have hkeys : s.arrays.keys[k]? = some (s.keyColumn k) := by
      simp [Split.arrays, Split.keyColumns, hk]
    rw [keyCell, hflags, hkeys]
    rfl
  · -- behind the last key a row has no flag
    have hflags : s.arrays.flags[k]? = none := List.getElem?_eq_none (by rw [length_flags]; omega)
    have hunset : ∀ row ∈ s.rows, row.flags[k]?.getD false = false := fun row hrow => by
      rw [List.getElem?_eq_none (by rw [(hw row hrow).2.2]; omega)]
      rfl
    have hcolumn : s.flagColumn k = s.rows.map fun _ => false := List.map_congr_left hunset
    rw [keyCell, hflags, Split.keyCell, hcolumn, List.getElem?_map]
    cases s.rows[i]? <;> rfl

theorem compareRows_eq (hw : s.WellFormed) (i j : Nat) : s.arrays.compareRows i j = s.compareRows i j := by
  have hfrom : ∀ (ds : List Direction) (k : Nat),
      s.arrays.compareRowsFrom i j k ds = s.compareRowsFrom i j k ds := by
    intro ds
    induction ds with
    | nil => exact fun _ => rfl
    | cons d ds ih =>
      intro k
      cases hkey : compareKey d (s.keyCell k i) (s.keyCell k j) <;>
        simp only [compareRowsFrom, Split.compareRowsFrom, keyCell_eq hw, hkey, ih]
  exact hfrom s.orders 0

/-- Sorted rows are the rows read at the sorted numbers. -/
theorem stableSort_rows (hw : s.WellFormed) : Split.stableSort (compareKeys s.orders) s.rows =
    Split.readAt (Split.stableSort s.arrays.compareRows (List.range s.rowCount)) s.rows := by
  have hnumbers : ∀ i ∈ Split.stableSort s.arrays.compareRows (List.range s.rowCount), i < s.rows.length :=
    fun i hi => List.mem_range.mp ((Split.stableSort_perm _).mem_iff.mp hi)
  rw [Split.readAt_eq_map hnumbers default, ← Split.stableSort_map, Split.rowCount, range_getD]
  intro i hi j hj
  have hi := List.mem_range.mp hi
  have hj := List.mem_range.mp hj
  rw [compareRows_eq hw, Split.compareRows_eq hw hi hj, List.getElem?_eq_getElem hi,
    List.getElem?_eq_getElem hj]
  rfl

theorem sort_eq (hw : s.WellFormed) : s.arrays.sort = some s.sort.arrays := by
  have hkeys : s.arrays.keys.isEmpty = !s.hasKeys := by
    simp only [Split.arrays, Split.keyColumns, Split.hasKeys, List.isEmpty_map, Bool.not_not]
    rcases s.schema.keys with _ | ⟨key, keys⟩
    · rfl
    · rw [List.length_cons, List.range_succ_eq_map]
      rfl
  by_cases hstays : s.arrays.rowCount < 2 ∨ s.arrays.keys.isEmpty
  · have hsame : s.sort = s := by
      rw [Split.sort]
      split
      · rename_i hk
        have hfew : s.rows.length < 2 := hstays.resolve_right (by simp [hkeys, hk])
        rw [Split.stableSort_of_short hfew]
      · rfl
    rw [sort, if_pos hstays, hsame]
  · have hk : s.hasKeys := by simpa [hkeys] using (not_or.mp hstays).2
    have hperm : (Split.stableSort s.arrays.compareRows (List.range s.rowCount)).Perm _ :=
      Split.stableSort_perm _
    rw [sort, if_neg hstays, Split.sort, if_pos hk, stableSort_rows hw]
    exact permute_eq (fun i hi => List.mem_range.mp (hperm.mem_iff.mp hi))
      (hperm.length_eq.trans List.length_range)

/-- Bounds past the end cut as the end does. -/
theorem mapM_cut {n start stop : Nat} {arrays : List (List α)} (h : ∀ a ∈ arrays, a.length = n) :
    arrays.mapM (cut (min start (min stop n)) (min stop n)) =
      some (arrays.map fun a => (a.take stop).drop start) := by
  refine mapM_eq_some fun a ha => ?_
  have htake : a.take (min stop n) = a.take stop := List.take_eq_take_iff.mpr (by rw [h a ha]; omega)
  have hdrop : (a.take stop).drop (min start (min stop n)) = (a.take stop).drop start :=
    List.drop_eq_drop_iff.mpr (by rw [List.length_take, h a ha]; omega)
  rw [cut, if_pos (by rw [h a ha]; exact Nat.min_le_right _ _), htake, hdrop]

theorem slice_eq (s : Split) (start stop : Nat) :
    s.arrays.slice start stop = some (s.slice start stop).arrays := by
  obtain ⟨_, _, _, hcolumns, hkeys, hflags⟩ := s.arrays_wellFormed
  have hkept := arrays_map s ((s.rows.take stop).drop start)
    (f := fun a => (a.take stop).drop start) (g := fun a => (a.take stop).drop start)
    (fun _ => by rw [Split.column, List.map_drop, List.map_take, Split.column])
    (fun _ => by rw [Split.keyColumn, List.map_drop, List.map_take, Split.keyColumn])
    fun _ => by rw [Split.flagColumn, List.map_drop, List.map_take, Split.flagColumn]
  have hcount : ((s.rows.take stop).drop start).length =
      min stop s.arrays.rowCount - min start (min stop s.arrays.rowCount) := by
    have hrows : s.arrays.rowCount = s.rows.length := rfl
    rw [List.length_drop, List.length_take, hrows]
    omega
  rw [hcount] at hkept
  simp only [Split.slice, hkept, slice, mapM_cut hcolumns, mapM_cut hkeys, mapM_cut hflags]
  rfl

theorem withoutKeys_eq (s : Split) : s.arrays.withoutKeys = s.withoutKeys.arrays := by
  have hcolumns : s.withoutKeys.columns = s.columns := List.map_congr_left fun _ _ => List.map_map
  have hcount : s.withoutKeys.rowCount = s.rowCount := List.length_map _
  have harrays : s.withoutKeys.arrays =
      ⟨s.schema.withoutKeys, s.withoutKeys.columns, [], [], [], s.withoutKeys.rowCount⟩ := rfl
  rw [harrays, hcolumns, hcount]
  rfl

end Columnar
end QueryCluster
