import Mathlib.Data.List.Basic
import Mathlib.Data.List.Range
import QueryCluster.Proofs.Value.Order
import QueryCluster.Split.Basic

/-!
# What the stable sort of rows does

Sorting permutes the rows, whatever the comparison is. Under a comparison that is total and
transitive the result is in order. The sort asks only about its own rows, so two comparisons that
agree on them sort them alike.
-/
namespace QueryCluster.Split

section Any

variable {α : Type} {cmp : α → α → Ordering}

theorem insertBack_perm (r : α) (rows : List α) :
    (insertBack cmp r rows).Perm (r :: rows) := by
  induction rows with
  | nil => exact .refl _
  | cons t ts ih =>
    rw [insertBack]
    split
    · exact (ih.cons t).trans (.swap r t ts)
    · exact .refl _

theorem foldl_insertBack_perm (rows sorted : List α) :
    (rows.foldl (fun s r => insertBack cmp r s) sorted).Perm (rows ++ sorted) := by
  induction rows generalizing sorted with
  | nil => exact .refl _
  | cons r rows ih =>
    have hmid : (rows ++ insertBack cmp r sorted).Perm (r :: rows ++ sorted) :=
      ((insertBack_perm r sorted).append_left rows).trans List.perm_middle
    exact (ih (insertBack cmp r sorted)).trans hmid

theorem stableSort_perm (rows : List α) : (stableSort cmp rows).Perm rows := by
  have h : (rows.foldl (fun s r => insertBack cmp r s) []).Perm (rows ++ []) :=
    foldl_insertBack_perm rows []
  rw [List.append_nil] at h
  exact (List.reverse_perm _).trans h

theorem stableSort_of_short {rows : List α} (h : rows.length < 2) : stableSort cmp rows = rows := by
  rcases rows with _ | ⟨a, _ | ⟨b, rows⟩⟩
  · rfl
  · rfl
  · exact absurd h (by simp)

variable {β : Type} {f : β → α} {cmp' : β → β → Ordering}

theorem insertBack_map {b : β} {bs : List β} (h : ∀ t ∈ bs, cmp (f b) (f t) = cmp' b t) :
    insertBack cmp (f b) (bs.map f) = (insertBack cmp' b bs).map f := by
  induction bs with
  | nil => rfl
  | cons t ts ih =>
    obtain ⟨hhead, hrest⟩ := List.forall_mem_cons.mp h
    rw [List.map_cons, insertBack, insertBack, hhead, ih hrest]
    split <;> rfl

theorem foldl_insertBack_map {bs sorted : List β}
    (h : ∀ a ∈ bs ++ sorted, ∀ b ∈ bs ++ sorted, cmp (f a) (f b) = cmp' a b) :
    (bs.map f).foldl (fun s r => insertBack cmp r s) (sorted.map f) =
      (bs.foldl (fun s r => insertBack cmp' r s) sorted).map f := by
  induction bs generalizing sorted with
  | nil => rfl
  | cons b bs ih =>
    have hb : insertBack cmp (f b) (sorted.map f) = (insertBack cmp' b sorted).map f :=
      insertBack_map fun t ht => h b (by simp) t (by simp [ht])
    have hmem : ∀ x ∈ bs ++ insertBack cmp' b sorted, x ∈ b :: bs ++ sorted := by
      intro x hx
      have hperm : (bs ++ insertBack cmp' b sorted).Perm (b :: bs ++ sorted) :=
        ((insertBack_perm b sorted).append_left bs).trans List.perm_middle
      exact hperm.mem_iff.mp hx
    rw [List.map_cons, List.foldl_cons, List.foldl_cons, hb]
    exact ih fun a ha b hb => h a (hmem a ha) b (hmem b hb)

/-- Entries are sorted as what they stand for. -/
theorem stableSort_map {bs : List β} (h : ∀ a ∈ bs, ∀ b ∈ bs, cmp (f a) (f b) = cmp' a b) :
    stableSort cmp (bs.map f) = (stableSort cmp' bs).map f := by
  have hfold : (bs.map f).foldl (fun s r => insertBack cmp r s) (([] : List β).map f) = _ :=
    foldl_insertBack_map (by simpa using h)
  rw [List.map_nil] at hfold
  rw [stableSort, stableSort, hfold, List.map_reverse]

end Any

variable {cmp : Row → Row → Ordering}

/-- Rows in order: none is greater than one behind it. -/
def InOrder (cmp : Row → Row → Ordering) (rows : List Row) : Prop :=
  rows.Pairwise fun a b => (cmp a b).isLE

theorem insertBack_descending [Std.TransCmp cmp] (r : Row) {rows : List Row}
    (h : rows.Pairwise fun a b => (cmp b a).isLE) :
    (insertBack cmp r rows).Pairwise fun a b => (cmp b a).isLE := by
  induction rows with
  | nil => exact List.pairwise_singleton _ r
  | cons t ts ih =>
    obtain ⟨ht, hts⟩ := List.pairwise_cons.mp h
    rw [insertBack]
    split
    · rename_i hlt
      refine List.pairwise_cons.mpr ⟨fun x hx => ?_, ih hts⟩
      rcases List.mem_cons.mp ((insertBack_perm r ts).mem_iff.mp hx) with rfl | hx
      · rw [hlt]
        rfl
      · exact ht x hx
    · rename_i hge
      have htr : (cmp t r).isLE := Std.OrientedCmp.isLE_of_isGE (Ordering.isGE_iff_ne_lt.mpr hge)
      refine List.pairwise_cons.mpr ⟨fun x hx => ?_, h⟩
      rcases List.mem_cons.mp hx with rfl | hx
      · exact htr
      · exact Std.TransCmp.isLE_trans (ht x hx) htr

theorem foldl_insertBack_descending [Std.TransCmp cmp] (rows : List Row) {sorted : List Row}
    (h : sorted.Pairwise fun a b => (cmp b a).isLE) :
    (rows.foldl (fun s r => insertBack cmp r s) sorted).Pairwise fun a b => (cmp b a).isLE := by
  induction rows generalizing sorted with
  | nil => exact h
  | cons r rows ih => exact ih (insertBack_descending r h)

theorem stableSort_inOrder [Std.TransCmp cmp] (rows : List Row) :
    InOrder cmp (stableSort cmp rows) :=
  List.pairwise_reverse.mpr (foldl_insertBack_descending rows List.Pairwise.nil)

theorem stableSort_congr {cmp' : Row → Row → Ordering} {rows : List Row}
    (h : ∀ a ∈ rows, ∀ b ∈ rows, cmp a b = cmp' a b) :
    stableSort cmp rows = stableSort cmp' rows := by
  have hmap := stableSort_map (f := id) h
  rwa [List.map_id, List.map_id] at hmap

end QueryCluster.Split

/-!
## What stability determines

Rows in order are known once it is known, for every row, which rows are its equals and in what order
these stand. Sorting stably leaves the equals of every row in their order, so all stable sorts are one.
-/
namespace QueryCluster.Split

variable {cmp cmp' : Row → Row → Ordering}

/-- The rows equal to a given one, in their order. -/
def equals (cmp : Row → Row → Ordering) (r : Row) (rows : List Row) : List Row :=
  rows.filter fun s => cmp r s = .eq

theorem mem_equals {r s : Row} {rows : List Row} : s ∈ equals cmp r rows ↔ s ∈ rows ∧ cmp r s = .eq := by
  simp [equals]

theorem equals_cons_of_eq {r s : Row} (h : cmp r s = .eq) (rows : List Row) :
    equals cmp r (s :: rows) = s :: equals cmp r rows :=
  List.filter_cons_of_pos (by simpa using h)

theorem equals_cons_of_ne {r s : Row} (h : cmp r s ≠ .eq) (rows : List Row) :
    equals cmp r (s :: rows) = equals cmp r rows :=
  List.filter_cons_of_neg (by simpa using h)

section Order

variable [Std.TransCmp cmp]

theorem isLE_total (a b : Row) : ((cmp a b).isLE || (cmp b a).isLE) = true := by
  have hswap : cmp b a = (cmp a b).swap := Std.OrientedCmp.eq_swap
  rw [hswap]
  cases cmp a b <;> rfl

theorem mem_of_equals_eq {as bs : List Row} (h : ∀ r, equals cmp r as = equals cmp r bs) {a : Row}
    (ha : a ∈ as) : a ∈ bs := by
  have hmem : a ∈ equals cmp a as := mem_equals.mpr ⟨ha, Std.ReflCmp.compare_self⟩
  rw [h a] at hmem
  exact (mem_equals.mp hmem).1

/-- Rows in order with the same equals of every row are the same rows. -/
theorem InOrder.ext {as bs : List Row} (ha : InOrder cmp as) (hb : InOrder cmp bs)
    (h : ∀ r, equals cmp r as = equals cmp r bs) : as = bs := by
  induction as generalizing bs with
  | nil =>
    cases bs with
    | nil => rfl
    | cons b bs => cases mem_of_equals_eq (fun r => (h r).symm) List.mem_cons_self
  | cons a as ih =>
    cases bs with
    | nil => cases mem_of_equals_eq h List.mem_cons_self
    | cons b bs =>
      obtain ⟨hleast, has⟩ := List.pairwise_cons.mp ha
      obtain ⟨hleast', hbs⟩ := List.pairwise_cons.mp hb
      -- either first row is not greater than the other, for it is among the rows of the other side
      have hab : (cmp a b).isLE := by
        rcases List.mem_cons.mp (mem_of_equals_eq (fun r => (h r).symm) List.mem_cons_self) with heq | hb
        · exact heq ▸ Std.ReflCmp.isLE_rfl
        · exact hleast b hb
      have hba : (cmp b a).isLE := by
        rcases List.mem_cons.mp (mem_of_equals_eq h List.mem_cons_self) with heq | ha
        · exact heq ▸ Std.ReflCmp.isLE_rfl
        · exact hleast' a ha
      have heq : a = b := by
        have hself := h a
        rw [equals_cons_of_eq Std.ReflCmp.compare_self,
          equals_cons_of_eq (Std.OrientedCmp.isLE_antisymm hab hba)] at hself
        exact (List.cons.inj hself).1
      subst heq
      refine congrArg _ (ih has hbs fun r => ?_)
      by_cases hr : cmp r a = .eq
      · exact (List.cons.inj ((equals_cons_of_eq hr as).symm.trans
          ((h r).trans (equals_cons_of_eq hr bs)))).2
      · exact (equals_cons_of_ne hr as).symm.trans ((h r).trans (equals_cons_of_ne hr bs))

theorem equals_insertBack (r s : Row) (rows : List Row) :
    equals cmp r (insertBack cmp s rows) = equals cmp r (s :: rows) := by
  induction rows with
  | nil => rfl
  | cons t ts ih =>
    rw [insertBack]
    split
    · rename_i hlt
      by_cases hrs : cmp r s = .eq
      · have hrt : cmp r t ≠ .eq := by
          rw [Std.TransCmp.congr_left hrs, hlt]
          decide
        rw [equals_cons_of_ne hrt, ih, equals_cons_of_eq hrs, equals_cons_of_eq hrs,
          equals_cons_of_ne hrt]
      · rw [equals_cons_of_ne hrs]
        by_cases hrt : cmp r t = .eq
        · rw [equals_cons_of_eq hrt, ih, equals_cons_of_ne hrs, equals_cons_of_eq hrt]
        · rw [equals_cons_of_ne hrt, ih, equals_cons_of_ne hrs, equals_cons_of_ne hrt]
    · rfl

theorem equals_foldl_insertBack (r : Row) (rows sorted : List Row) :
    equals cmp r (rows.foldl (fun s t => insertBack cmp t s) sorted) =
      (equals cmp r rows).reverse ++ equals cmp r sorted := by
  induction rows generalizing sorted with
  | nil => rfl
  | cons t rows ih =>
    rw [List.foldl_cons, ih, equals_insertBack]
    by_cases ht : cmp r t = .eq
    · simp [equals_cons_of_eq ht]
    · simp [equals_cons_of_ne ht]

theorem equals_stableSort (r : Row) (rows : List Row) :
    equals cmp r (stableSort cmp rows) = equals cmp r rows := by
  have hfold : equals cmp r (rows.foldl (fun s t => insertBack cmp t s) []) = _ :=
    equals_foldl_insertBack r rows []
  rw [stableSort, equals, List.filter_reverse, ← equals, hfold]
  simp [equals]

/-- The library sorts stably: the equals of a row are in order already, and so they stay. -/
theorem equals_mergeSort (r : Row) (rows : List Row) :
    equals cmp r (rows.mergeSort fun a b => (cmp a b).isLE) = equals cmp r rows := by
  have hequal : (equals cmp r rows).Pairwise fun a b => (cmp a b).isLE = true := by
    refine List.Pairwise.imp_of_mem (R := fun _ _ => True) ?_ (List.pairwise_of_forall fun _ _ => trivial)
    intro a b ha hb _
    have hab : cmp a b = .eq := by
      rw [← Std.TransCmp.congr_left (mem_equals.mp ha).2]
      exact (mem_equals.mp hb).2
    rw [hab]
    rfl
  have hsub := (List.sublist_mergeSort (fun _ _ _ => Std.TransCmp.isLE_trans) isLE_total hequal
    List.filter_sublist).filter fun s => cmp r s = .eq
  rw [equals, List.filter_filter] at hsub
  simp only [Bool.and_self] at hsub
  exact (hsub.eq_of_length ((List.mergeSort_perm rows _).filter _).length_eq.symm).symm

end Order

/-- Sorting asks only about its own rows. -/
theorem mergeSort_congr {rows : List Row} (h : ∀ a ∈ rows, ∀ b ∈ rows, cmp a b = cmp' a b) :
    (rows.mergeSort fun a b => (cmp a b).isLE) = rows.mergeSort fun a b => (cmp' a b).isLE := by
  have hmap := List.map_mergeSort (f := id) (s := fun a b => (cmp' a b).isLE)
    (r := fun a b => (cmp a b).isLE) fun a ha b hb => congrArg Ordering.isLE (h a ha b hb)
  rwa [List.map_id, List.map_id] at hmap

/-- Rows in order that leave the equals of every row in their order are the stable sort. -/
theorem InOrder.eq_mergeSort [Std.TransCmp cmp'] {rows sorted : List Row}
    (hsorted : InOrder cmp' sorted) (hequals : ∀ r, equals cmp' r sorted = equals cmp' r rows)
    (h : ∀ a ∈ rows, ∀ b ∈ rows, cmp a b = cmp' a b) :
    sorted = rows.mergeSort fun a b => (cmp a b).isLE := by
  rw [mergeSort_congr h]
  exact hsorted.ext (List.pairwise_mergeSort (fun _ _ _ => Std.TransCmp.isLE_trans) isLE_total rows)
    fun r => (hequals r).trans (equals_mergeSort r rows).symm

theorem stableSort_eq_mergeSort [Std.TransCmp cmp'] {rows : List Row}
    (h : ∀ a ∈ rows, ∀ b ∈ rows, cmp a b = cmp' a b) :
    stableSort cmp rows = rows.mergeSort fun a b => (cmp a b).isLE := by
  rw [stableSort_congr h]
  exact (stableSort_inOrder rows).eq_mergeSort (fun r => equals_stableSort r rows) h

end QueryCluster.Split

/-!
## Sorting row numbers

A split is a number of arrays of one length, and rows are moved in all of them at once. The numbers of
the rows are sorted by the keys that the arrays hold for them, and every array is read in the order of
the sorted numbers. What comes out are the arrays of the sorted rows, so no row is taken apart.
-/
namespace QueryCluster.Split

/-- Key number `k` of a row as the arrays hold it, unless it is absent. -/
def keyCell (s : Split) (k i : Nat) : Option Value :=
  match (s.flagColumn k)[i]? with
  | some true => (s.keyColumn k)[i]?
  | _ => none

def compareRowsFrom (s : Split) (i j : Nat) : Nat → List Direction → Ordering
  | _, [] => .eq
  | k, d :: ds =>
    match compareKey d (s.keyCell k i) (s.keyCell k j) with
    | .eq => compareRowsFrom s i j (k + 1) ds
    | o => o

def compareRows (s : Split) (i j : Nat) : Ordering := s.compareRowsFrom i j 0 s.orders

/-- The numbers of the rows, sorted stably. -/
def order (s : Split) : List Nat :=
  (List.range s.rowCount).mergeSort fun i j => (s.compareRows i j).isLE

/-- An array read at row numbers. -/
def readAt {α : Type} (numbers : List Nat) (array : List α) : List α := numbers.filterMap (array[·]?)

variable {s : Split}

theorem readAt_map {α β : Type} (f : α → β) (numbers : List Nat) (array : List α) :
    readAt numbers (array.map f) = (readAt numbers array).map f := by
  rw [readAt, readAt, List.map_filterMap]
  exact List.filterMap_congr fun i _ => List.getElem?_map

theorem filterMap_eq_map_getD {α β : Type} {f : α → Option β} {as : List α}
    (h : ∀ a ∈ as, (f a).isSome) (d : β) : as.filterMap f = as.map fun a => (f a).getD d := by
  rw [← List.filterMap_eq_map]
  refine List.filterMap_congr fun a ha => ?_
  obtain ⟨b, hb⟩ := Option.isSome_iff_exists.mp (h a ha)
  rw [hb, Function.comp_apply, hb, Option.getD_some]

section Read

variable {α : Type} {numbers : List Nat} {array : List α} (h : ∀ i ∈ numbers, i < array.length)
include h

theorem isSome_readAt : ∀ i ∈ numbers, (array[i]?).isSome := fun i hi => by
  rw [List.getElem?_eq_getElem (h i hi)]
  rfl

theorem readAt_eq_map (d : α) : readAt numbers array = numbers.map fun i => array[i]?.getD d :=
  filterMap_eq_map_getD (isSome_readAt h) d

end Read

section Keys

variable {i j : Nat} (hw : s.WellFormed) (hi : i < s.rows.length) (hj : j < s.rows.length)
include hw hi

theorem keyCell_eq (k : Nat) : s.keyCell k i = s.rows[i].key? k := by
  have hflags : s.rows[i].flags.length = s.rows[i].keys.length :=
    (hw _ (List.getElem_mem hi)).2.2.trans (hw _ (List.getElem_mem hi)).2.1.symm
  rw [keyCell, Row.key?, flagColumn, keyColumn, List.getElem?_map, List.getElem?_map,
    List.getElem?_eq_getElem hi, Option.map_some, Option.map_some]
  rcases hk : s.rows[i].flags[k]? with _ | _ | _
  · rfl
  · rfl
  · have hlt : k < s.rows[i].keys.length := hflags ▸ (List.getElem?_eq_some_iff.mp hk).1
    simp [List.getElem?_eq_getElem hlt]

include hj

theorem compareRowsFrom_eq (k : Nat) (ds : List Direction) :
    s.compareRowsFrom i j k ds = compareKeysFrom s.rows[i] s.rows[j] k ds := by
  induction ds generalizing k with
  | nil => rfl
  | cons d ds ih =>
    have hkey : compareKey d (s.keyCell k i) (s.keyCell k j) =
        compareKey d (s.rows[i].key? k) (s.rows[j].key? k) := by
      rw [keyCell_eq hw hi, keyCell_eq hw hj]
    cases h : compareKey d (s.rows[i].key? k) (s.rows[j].key? k) <;>
      simp only [compareRowsFrom, compareKeysFrom, hkey, h, ih]

theorem compareRows_eq : s.compareRows i j = compareKeys s.orders s.rows[i] s.rows[j] :=
  compareRowsFrom_eq hw hi hj 0 s.orders

end Keys

/-- Sorted rows are the rows read at the sorted numbers. -/
theorem mergeSort_rows_eq_readAt (hw : s.WellFormed) :
    (s.rows.mergeSort fun a b => (compareKeys s.orders a b).isLE) = readAt s.order s.rows := by
  let row (i : Nat) : Row := (s.rows[i]?).getD default
  have hrow : ∀ i (hi : i < s.rows.length), row i = s.rows[i] := fun i hi => by
    simp only [row, List.getElem?_eq_getElem hi, Option.getD_some]
  have hrows : (List.range s.rowCount).map row = s.rows := by
    refine List.ext_getElem (by simp [rowCount]) fun i _ hi => ?_
    rw [List.getElem_map, List.getElem_range, hrow i hi]
  have hsort := List.map_mergeSort (f := row) (l := List.range s.rowCount)
    (r := fun i j => (s.compareRows i j).isLE) (s := fun a b => (compareKeys s.orders a b).isLE)
    fun i hi j hj => by
      have hi := List.mem_range.mp hi
      have hj := List.mem_range.mp hj
      rw [compareRows_eq hw hi hj, hrow i hi, hrow j hj]
  have hnumbers : ∀ i ∈ s.order, i < s.rows.length := fun i hi =>
    List.mem_range.mp (List.mem_mergeSort.mp hi)
  rw [hrows] at hsort
  rw [readAt_eq_map hnumbers default, ← hsort]
  rfl

/-- Sorting a split sorts its rows stably. -/
theorem sort_rows (hk : s.schema.keys = [] → s.orders = [])
    (hu : ∀ a ∈ s.rows, ∀ b ∈ s.rows, compareKeys s.orders a b = placedKeys s.orders a b) :
    s.sort.rows = s.rows.mergeSort fun a b => (compareKeys s.orders a b).isLE := by
  rw [sort]
  split
  · exact stableSort_eq_mergeSort hu
  · rename_i hkeys
    have hnone : s.schema.keys = [] := by simpa [hasKeys] using hkeys
    rw [hk hnone]
    exact (List.mergeSort_of_pairwise (List.pairwise_of_forall fun _ _ => rfl)).symm

/-- Sorting a split reads all its arrays in one order. -/
theorem sort_arrays (hw : s.WellFormed) (hk : s.schema.keys = [] → s.orders = [])
    (hu : ∀ a ∈ s.rows, ∀ b ∈ s.rows, compareKeys s.orders a b = placedKeys s.orders a b) :
    s.sort.columns = s.columns.map (readAt s.order) ∧
      s.sort.keyColumns = s.keyColumns.map (readAt s.order) ∧
      s.sort.flagColumns = s.flagColumns.map (readAt s.order) := by
  have hschema : s.sort.schema = s.schema := by
    rw [sort]
    split <;> rfl
  have hrows : s.sort.rows = readAt s.order s.rows :=
    (sort_rows hk hu).trans (mergeSort_rows_eq_readAt hw)
  simp only [columns, keyColumns, flagColumns, List.map_map, hschema]
  refine ⟨List.map_congr_left fun c _ => ?_, List.map_congr_left fun k _ => ?_,
    List.map_congr_left fun k _ => ?_⟩
  · rw [column, hrows, Function.comp_apply, column, readAt_map]
  · rw [keyColumn, hrows, Function.comp_apply, keyColumn, readAt_map]
  · rw [flagColumn, hrows, Function.comp_apply, flagColumn, readAt_map]

end QueryCluster.Split
