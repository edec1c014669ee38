import QueryCluster.Operator.Run
import QueryCluster.Proofs.Operator.Feeds
import QueryCluster.Proofs.Outcome
import QueryCluster.Proofs.Split.Sorting
import QueryCluster.Proofs.Value.Order

/-!
# What a local sort writes

A keyed row has the values of its row and one key for each sort item, and keying it again without
its keys gives it back. A local sort that meets no fault writes the keyed rows of all its inputs,
and writes them in order if no sort item mixes whole numbers with floats.
-/
namespace QueryCluster

open Split (InOrder)

/-- The key of a row for a sort item. -/
def SortItem.key (schema : Schema) (r : Row) (i : SortItem) :
    Except OperatorError (Option Value) :=
  (i.expr.eval schema r.values).mapError OperatorError.ofExpr

theorem Row.key?_withKeys (values : List Value) (keys : List (Option Value)) (k : Nat) :
    (Row.withKeys values keys).key? k = keys[k]?.join := by
  rcases hk : keys[k]? with _ | _ | v <;> simp [key?, withKeys, hk]

theorem keyRow_ok {schema : Schema} {items : List SortItem} {r keyed : Row}
    (h : keyRow schema items r = .ok keyed) :
    ∃ keys, items.mapM (SortItem.key schema r) = .ok keys ∧ keyed = Row.withKeys r.values keys := by
  obtain ⟨keys, hkeys, h⟩ := bind_ok h
  exact ⟨keys, hkeys, (Except.ok.inj h).symm⟩

/-- Keys depend on the values of a row only. -/
theorem keyRow_withoutKeys {schema : Schema} {items : List SortItem} {r keyed : Row}
    (h : keyRow schema items r = .ok keyed) : keyRow schema items keyed.withoutKeys = .ok keyed := by
  obtain ⟨keys, hkeys, rfl⟩ := keyRow_ok h
  exact h

theorem keyRow_values {schema : Schema} {items : List SortItem} {r keyed : Row}
    (h : keyRow schema items r = .ok keyed) : keyed.values = r.values := by
  obtain ⟨keys, _, rfl⟩ := keyRow_ok h
  rfl

theorem keySchema_ok {schema output : Schema} {items : List SortItem}
    (h : keySchema schema items = .ok output) :
    output.columns = schema.columns ∧ output.keys.length = items.length := by
  have hfold : ∀ (items : List SortItem) (s t : Schema),
      items.foldlM (fun (s : Schema) (i : SortItem) => (i.expr.typeOf schema).map s.addKey) s = .ok t →
      t.columns = s.columns ∧ t.keys.length = s.keys.length + items.length := by
    intro items
    induction items with
    | nil =>
      intro s t h
      cases h
      exact ⟨rfl, rfl⟩
    | cons i items ih =>
      intro s t h
      rw [List.foldlM_cons] at h
      obtain ⟨u, hu, h⟩ := bind_ok h
      obtain ⟨type, _, rfl⟩ := map_ok hu
      obtain ⟨hcolumns, hkeys⟩ := ih _ t h
      refine ⟨hcolumns, ?_⟩
      rw [hkeys, Schema.addKey, List.length_append, List.length_cons, List.length_cons, List.length_nil]
      omega
  obtain ⟨hcolumns, hkeys⟩ := hfold items _ output (mapError_ok h)
  refine ⟨hcolumns, ?_⟩
  rw [hkeys, Schema.withoutKeys, List.length_nil, Nat.zero_add]

/-- The items never set a whole number against a float among some rows. -/
def Unmixed (schema : Schema) (items : List SortItem) (rows : List Row) : Prop :=
  ∀ i ∈ items, ∀ a ∈ rows, ∀ b ∈ rows, ∀ x y, i.expr.eval schema a.values = .ok (some x) →
    i.expr.eval schema b.values = .ok (some y) → ¬ Value.Mixed x y

theorem Unmixed.mono {schema : Schema} {items : List SortItem} {rows more : List Row}
    (h : Unmixed schema items more) (hsub : ∀ r ∈ rows, r ∈ more) : Unmixed schema items rows :=
  fun i hi a ha b hb => h i hi a (hsub a ha) b (hsub b hb)

theorem key?_of_keyRow {schema : Schema} {items : List SortItem} {r keyed : Row}
    (h : keyRow schema items r = .ok keyed) {k : Nat} {x : Value} (hx : keyed.key? k = some x) :
    ∃ i ∈ items, items[k]? = some i ∧ i.expr.eval schema r.values = .ok (some x) := by
  obtain ⟨keys, hkeys, rfl⟩ := keyRow_ok h
  rw [Row.key?_withKeys, Option.join_eq_some_iff] at hx
  have hall := mapM_ok hkeys
  obtain ⟨hk, hkx⟩ := List.getElem?_eq_some_iff.mp hx
  have hki : k < items.length := by rw [hall.length_eq]; exact hk
  have hkey := hall.get hki hk
  refine ⟨items[k], List.getElem_mem hki, List.getElem?_eq_getElem hki, ?_⟩
  simp only [List.get_eq_getElem, hkx] at hkey
  exact mapError_ok hkey

theorem unmixed_of_keyRow {schema : Schema} {items : List SortItem} {rows : List Row}
    (hu : Unmixed schema items rows) {a b keyedA keyedB : Row} (ha : a ∈ rows) (hb : b ∈ rows)
    (hka : keyRow schema items a = .ok keyedA) (hkb : keyRow schema items b = .ok keyedB) :
    keyedA.Unmixed keyedB := by
  intro k x y hx hy
  obtain ⟨i, hi, hik, hx⟩ := key?_of_keyRow hka hx
  obtain ⟨j, _, hjk, hy⟩ := key?_of_keyRow hkb hy
  obtain rfl : i = j := Option.some.inj (hik.symm.trans hjk)
  exact hu i hi a ha b hb x y hx hy

/-- Rows and what keying made of them. -/
def Keyed (schema : Schema) (items : List SortItem) (rows keyed : List Row) : Prop :=
  List.Forall₂ (fun r k => keyRow schema items r = .ok k) rows keyed

namespace Keyed

variable {schema : Schema} {items : List SortItem} {rows keyed : List Row}

theorem exists_of_mem (h : Keyed schema items rows keyed) {k : Row} (hk : k ∈ keyed) :
    ∃ r ∈ rows, keyRow schema items r = .ok k :=
  exists_of_forall₂ h hk

theorem withoutKeys (h : Keyed schema items rows keyed) :
    keyed.map Row.withoutKeys = rows.map Row.withoutKeys := by
  induction h with
  | nil => rfl
  | cons hr _ ih => rw [List.map_cons, List.map_cons, ih, Row.withoutKeys, keyRow_values hr]; rfl

/-- Keyed rows of unmixed items are compared as their places are. -/
theorem compareKeys_eq (h : Keyed schema items rows keyed) (hu : Unmixed schema items rows)
    (orders : List Direction) :
    ∀ a ∈ keyed, ∀ b ∈ keyed, compareKeys orders a b = placedKeys orders a b := by
  intro a ha b hb
  obtain ⟨r, hr, hka⟩ := h.exists_of_mem ha
  obtain ⟨s, hs, hkb⟩ := h.exists_of_mem hb
  exact QueryCluster.compareKeys_eq (unmixed_of_keyRow hu hr hs hka hkb) orders

end Keyed

theorem sort_perm (s : Split) : s.sort.rows.Perm s.rows := by
  rw [Split.sort]
  split
  · exact Split.stableSort_perm s.rows
  · exact .refl _

theorem sort_schema (s : Split) : s.sort.schema = s.schema := by
  rw [Split.sort]
  split <;> rfl

/-- An empty buffer is not written. -/
theorem written_sort (s : Split) :
    rowsOf (if s.isEmpty then [] else [s.sort]) = s.sort.rows ∧
      ∀ t ∈ (if s.isEmpty then [] else [s.sort]), t = s.sort := by
  by_cases he : s.isEmpty
  · have hrows : s.rows = [] := List.isEmpty_iff.mp he
    have hlen := (sort_perm s).length_eq
    rw [hrows] at hlen
    rw [if_pos he, List.length_eq_zero_iff.mp hlen]
    exact ⟨rfl, by simp⟩
  · rw [if_neg he]
    simp

/-- Sorting by as many directions as there are keys. -/
theorem sort_inOrder {s : Split} (hk : s.schema.keys = [] → s.orders = [])
    (hu : ∀ a ∈ s.rows, ∀ b ∈ s.rows, compareKeys s.orders a b = placedKeys s.orders a b) :
    InOrder (placedKeys s.orders) s.sort.rows := by
  rw [Split.sort]
  split
  · show InOrder (placedKeys s.orders) (Split.stableSort (compareKeys s.orders) s.rows)
    rw [Split.stableSort_congr hu]
    exact Split.stableSort_inOrder s.rows
  · rename_i hkeys
    have hnone : s.schema.keys = [] := by simpa [Split.hasKeys] using hkeys
    rw [hk hnone]
    exact List.pairwise_of_forall fun _ _ => rfl

/-- A row keyed and found to fit. -/
def keyFitting (schema : Schema) (items : List SortItem) (columns : Nat) (r : Row) :
    Except OperatorError Row :=
  keyRow schema items r >>= fitting columns

theorem keyFitting_ok {schema : Schema} {items : List SortItem} {columns : Nat} {r k : Row}
    (h : keyFitting schema items columns r = .ok k) :
    keyRow schema items r = .ok k ∧ k.values.length = columns := by
  obtain ⟨keyed, hkeyed, h⟩ := bind_ok h
  rw [fitting] at h
  split at h
  · rename_i hlen
    cases h
    exact ⟨hkeyed, hlen⟩
  · cases h

section Process

variable {items : List SortItem} {limit : Option Nat} {schema output : Schema} {p : Process Split}

theorem localSortProcess_ok (h : localSortProcess items limit schema = .ok p) :
    ∃ output, keySchema schema items = .ok output ∧ p.schema = output ∧
      p.start = { schema := output, orders := directionsOf items } ∧
      (∀ buffer, p.finish buffer = if buffer.isEmpty then [] else [buffer.sort]) ∧
      ∀ buffer s buffer' out, p.step buffer s = .ok (buffer', out) → out = [] ∧
        ∃ rows, s.rows.mapM (keyFitting s.schema items output.columns.length) = .ok rows ∧
          buffer' = { buffer with rows := buffer.rows ++ rows } := by
  obtain ⟨output, ho, h⟩ := bind_ok h
  cases h
  refine ⟨output, ho, rfl, rfl, fun _ => rfl, fun buffer s buffer' out h => ?_⟩
  have hrun : (s.rows.mapM (keyFitting s.schema items output.columns.length) >>= fun rows =>
      pure ({ buffer with rows := buffer.rows ++ rows }, [])) = Except.ok (buffer', out) := by
    cases limit with
    | none => exact h
    | some n =>
      by_cases hn : n < buffer.rowCount + s.rowCount
      · have h : (if n < buffer.rowCount + s.rowCount then _ else _) = Except.ok (buffer', out) := h
        rw [if_pos hn] at h
        cases h
      · have h : (if n < buffer.rowCount + s.rowCount then _ else _) = Except.ok (buffer', out) := h
        rwa [if_neg hn] at h
  obtain ⟨rows, hrows, h⟩ := bind_ok hrun
  cases h
  exact ⟨rfl, rows, hrows, rfl⟩

/-- The buffer behind some splits: their keyed rows stand behind what it held. -/
theorem answer_localSort (hp : localSortProcess items limit schema = .ok p)
    (ho : keySchema schema items = .ok output) {splits : List Split}
    (hs : ∀ s ∈ splits, s.schema = schema) {buffer buffer' : Split} {out : List Split}
    (h : p.answer buffer splits = (out, .ok buffer')) :
    out = [] ∧ ∃ keyed, Keyed schema items (rowsOf splits) keyed ∧
      (∀ k ∈ keyed, k.values.length = output.columns.length) ∧
      buffer' = { buffer with rows := buffer.rows ++ keyed } := by
  induction splits generalizing buffer out with
  | nil =>
    cases h
    exact ⟨rfl, [], .nil, by simp, by simp⟩
  | cons s splits ih =>
    obtain ⟨output', ho', _, _, _, hstep⟩ := localSortProcess_ok hp
    obtain rfl : output' = output := Except.ok.inj (ho'.symm.trans ho)
    rw [Process.answer] at h
    rcases hn : p.step buffer s with e | ⟨next, written⟩
    · rw [hn] at h
      cases h
    rw [hn] at h
    rcases hr : p.answer next splits with ⟨rest, r⟩
    simp only [hr] at h
    cases h
    obtain ⟨rfl, rows, hrows, rfl⟩ := hstep buffer s next written hn
    obtain ⟨rfl, keyed, hkeyed, hwidths, rfl⟩ := ih (fun t ht => hs t (List.mem_cons_of_mem s ht)) hr
    rw [hs s List.mem_cons_self] at hrows
    have hfit : List.Forall₂ (fun r k => keyFitting schema items output'.columns.length r = .ok k)
        s.rows rows := mapM_ok hrows
    refine ⟨rfl, rows ++ keyed, ?_, ?_, by simp [List.append_assoc]⟩
    · exact List.rel_append (hfit.imp fun r k hk => (keyFitting_ok hk).1) hkeyed
    · intro k hk
      rcases List.mem_append.mp hk with hk | hk
      · obtain ⟨r, _, hr⟩ := exists_of_forall₂ hfit hk
        exact (keyFitting_ok hr).2
      · exact hwidths k hk

end Process

theorem Keyed.length_keys {schema : Schema} {items : List SortItem} {rows keyed : List Row}
    (h : Keyed schema items rows keyed) {k : Row} (hk : k ∈ keyed) :
    k.keys.length = items.length ∧ k.flags.length = items.length := by
  obtain ⟨r, _, hr⟩ := h.exists_of_mem hk
  obtain ⟨keys, hkeys, rfl⟩ := keyRow_ok hr
  have hlen := (mapM_ok hkeys).length_eq
  exact ⟨by simp [Row.withKeys, hlen], by simp [Row.withKeys, hlen]⟩

/-- A local sort without faults writes the keyed rows of its inputs, in order if they are unmixed. -/
theorem localSort_run_ok {w : Workplace} {arrival : List Nat} {inputs : List Feed}
    {items : List SortItem} {schema : Schema} {stats : Stats}
    (hu : ∀ f ∈ inputs, f.Under schema)
    (h : ((Operator.localSort items).run w arrival inputs).outcome = .ok stats) :
    ∃ output, keySchema schema items = .ok output ∧
      ((Operator.localSort items).run w arrival inputs).schema = some output ∧
      (∀ s ∈ ((Operator.localSort items).run w arrival inputs).splits, s.Under output) ∧
      ∃ rows keyed, rows.Perm (Feed.rows inputs) ∧ Keyed schema items rows keyed ∧
        (rowsOf ((Operator.localSort items).run w arrival inputs).splits).Perm keyed ∧
        (Unmixed schema items rows → InOrder (placedKeys (directionsOf items))
          (rowsOf ((Operator.localSort items).run w arrival inputs).splits)) := by
  obtain ⟨given, p, hp, hne, hended, splits, buffer, out, hperm, ha, hschema, hsplits⟩ :=
    Process.runOn_gather_ok h
  obtain rfl : given = schema := by
    obtain ⟨f, hf⟩ := List.exists_mem_of_ne_nil inputs hne
    exact (hu f hf).schema_eq given (hended f hf).schema_eq
  obtain ⟨output, ho, hps, hstart, hfinish, _⟩ := localSortProcess_ok hp
  have hs : ∀ s ∈ splits, s.schema = given := fun s hs =>
    (Feed.under_of_perm hu hperm hs).schema_eq
  obtain ⟨rfl, keyed, hkeyed, hwidths, rfl⟩ := answer_localSort hp ho hs ha
  obtain ⟨hcolumns, hkeys⟩ := keySchema_ok ho
  have hbuffer : ({ p.start with rows := p.start.rows ++ keyed } : Split) =
      { schema := output, rows := keyed, orders := directionsOf items } := by rw [hstart]; rfl
  rw [hbuffer, hfinish] at hsplits
  obtain ⟨hrows, hmem⟩ := written_sort { schema := output, rows := keyed, orders := directionsOf items }
  have hperm' := sort_perm { schema := output, rows := keyed, orders := directionsOf items }
  have hsplits : ((Operator.localSort items).run w arrival inputs).splits = _ := hsplits
  rw [List.nil_append] at hsplits
  rw [hsplits]
  refine ⟨output, ho, hschema.trans (congrArg some hps), fun s hs => ?_, rowsOf splits, keyed,
    Feed.rowsOf_perm hperm, hkeyed, hrows ▸ hperm', fun hmix => ?_⟩
  · rw [hmem s hs]
    refine ⟨sort_schema _, fun r hr => ?_⟩
    have hr := hperm'.mem_iff.mp hr
    obtain ⟨hkey, hflag⟩ := hkeyed.length_keys hr
    rw [sort_schema]
    exact ⟨hwidths r hr, hkey.trans hkeys.symm, hflag.trans hkeys.symm⟩
  · rw [hrows]
    refine sort_inOrder (s := { schema := output, rows := keyed, orders := directionsOf items })
      (fun hnone => ?_) fun a ha b hb => ?_
    · have hitems : items.length = 0 := by rw [← hkeys]; exact List.length_eq_zero_iff.mpr hnone
      rw [List.length_eq_zero_iff.mp hitems]
      rfl
    · exact hkeyed.compareKeys_eq hmix _ a ha b hb

end QueryCluster
