import Mathlib.Data.List.Forall2
import QueryCluster.Proofs.Operator.Feeds
import QueryCluster.Proofs.Operator.GlobalSort
import QueryCluster.Proofs.Split.Sorting

/-!
# A local sort is a stable sort

A local sort buffers its rows with their keys and sorts the buffer when all have arrived. The limit is
on the rows of the buffer together with those of the split at hand, so it is met just when all rows are
too many, whatever the splits are, and nothing is written before the end.
-/
namespace QueryCluster

open Split (readAt)

/-- What a buffer with a limit says to so many rows. -/
def roomFor (limit : Option Nat) (count : Nat) : Except OperatorError Unit :=
  match limit with
  | some n => if n < count then .error (.sortLimit n) else .ok ()
  | none => .ok ()

section Room

variable {m n : Nat}

theorem roomFor_eq_ok {limit : Option Nat} : roomFor limit n = .ok () ↔ ∀ k, limit = some k → n ≤ k := by
  cases limit with
  | none => exact ⟨fun _ => nofun, fun _ => rfl⟩
  | some k =>
    have hroom : roomFor (some k) n = if k < n then .error (.sortLimit k) else .ok () := rfl
    rw [hroom]
    by_cases hlt : k < n
    · rw [if_pos hlt]
      exact ⟨nofun, fun h => absurd (h k rfl) (Nat.not_le.mpr hlt)⟩
    · rw [if_neg hlt]
      exact ⟨fun _ _ hk => Option.some.inj hk ▸ Nat.not_lt.mp hlt, fun _ => rfl⟩

theorem roomFor_eq_error {limit : Option Nat} {e : OperatorError} (h : roomFor limit n = .error e) :
    ∃ k, limit = some k ∧ k < n ∧ e = .sortLimit k := by
  cases limit with
  | none => cases h
  | some k =>
    rw [roomFor] at h
    split at h
    · rename_i hlt
      exact ⟨k, rfl, hlt, (Except.error.inj h).symm⟩
    · cases h

/-- A limit that is exceeded is exceeded by more rows too. -/
theorem roomFor_mono (limit : Option Nat) (hle : m ≤ n) :
    (roomFor limit m >>= fun _ => roomFor limit n) = roomFor limit n := by
  cases limit with
  | none => rfl
  | some k =>
    have hroom : ∀ n, roomFor (some k) n = if k < n then .error (.sortLimit k) else .ok () := fun _ => rfl
    by_cases hlt : k < m
    · rw [hroom m, hroom n, if_pos hlt, if_pos (Nat.lt_of_lt_of_le hlt hle)]
      rfl
    · rw [hroom m, if_neg hlt, ok_bind]

end Room

variable {items : List SortItem} {limit : Option Nat} {schema output : Schema}

theorem localSortProcess_eq (limit : Option Nat) (ho : keySchema schema items = .ok output) :
    ∃ p, localSortProcess items limit schema = .ok p ∧ p.schema = output ∧
      p.start = { schema := output, orders := directionsOf items } ∧
      (∀ buffer, p.finish buffer = if buffer.isEmpty then [] else [buffer.sort]) ∧
      ∀ buffer s, p.step buffer s = do
        roomFor limit (buffer.rowCount + s.rowCount)
        let rows ← s.rows.mapM (keyFitting s.schema items output.columns.length)
        return ({ buffer with rows := buffer.rows ++ rows }, []) := by
  refine ⟨_, by rw [localSortProcess, ho]; rfl, rfl, rfl, fun _ => rfl, fun buffer s => ?_⟩
  cases limit with
  | none => rfl
  | some n =>
    by_cases hn : n < buffer.rowCount + s.rowCount
    · have hroom : roomFor (some n) (buffer.rowCount + s.rowCount) = .error (.sortLimit n) := if_pos hn
      rw [hroom]
      exact if_pos hn
    · have hroom : roomFor (some n) (buffer.rowCount + s.rowCount) = .ok () := if_neg hn
      rw [hroom, ok_bind]
      exact if_neg hn

/-- The buffer takes all rows with their keys or says that they are too many. -/
theorem answer_buffer {p : Process Split}
    (hstep : ∀ buffer s, p.step buffer s = do
      roomFor limit (buffer.rowCount + s.rowCount)
      let rows ← s.rows.mapM (keyFitting s.schema items output.columns.length)
      return ({ buffer with rows := buffer.rows ++ rows }, []))
    {splits : List Split} (hs : ∀ s ∈ splits, s.schema = schema) {keyed : List Row}
    (hkeyed : (rowsOf splits).mapM (keyFitting schema items output.columns.length) = .ok keyed)
    (buffer : Split) (hroom : roomFor limit buffer.rowCount = .ok ()) :
    p.answer buffer splits = ([], (roomFor limit (buffer.rowCount + keyed.length)).map fun _ =>
      { buffer with rows := buffer.rows ++ keyed }) := by
  induction splits generalizing buffer keyed with
  | nil =>
    obtain rfl : [] = keyed := Except.ok.inj hkeyed
    simp [Process.answer, hroom, Except.map]
  | cons s splits ih =>
    obtain ⟨hschema, hs⟩ := List.forall_mem_cons.mp hs
    rw [rowsOf_cons, List.mapM_append] at hkeyed
    obtain ⟨rows, hrows, hkeyed⟩ := bind_ok hkeyed
    obtain ⟨rest, hrest, hkeyed⟩ := bind_ok hkeyed
    obtain rfl : rows ++ rest = keyed := Except.ok.inj hkeyed
    have hcount : buffer.rowCount + s.rowCount = (buffer.rows ++ rows).length := by
      rw [List.length_append, ← (mapM_ok hrows).length_eq]
      rfl
    have hmono := roomFor_mono limit
      (show (buffer.rows ++ rows).length ≤ buffer.rowCount + (rows ++ rest).length by
        simp [Split.rowCount])
    rw [Process.answer, hstep, hschema, hrows, hcount]
    rcases hnow : roomFor limit (buffer.rows ++ rows).length with e | _
    · rw [hnow] at hmono
      rw [← hmono]
      rfl
    · have hnext := ih hs hrest { buffer with rows := buffer.rows ++ rows } hnow
      simp only [ok_bind, pure, Except.pure, hnext, Split.rowCount, List.nil_append, List.append_assoc,
        List.length_append, Nat.add_assoc]

/-- A row with its own values and the keys that the items have for them. A key that is absent is stored
as null and flagged as absent. -/
def KeyedBy (schema : Schema) (items : List SortItem) (r k : Row) : Prop :=
  ∃ keys, List.Forall₂ (fun i key => i.expr.eval schema r.values = .ok key) items keys ∧
    k = Row.withKeys r.values keys

theorem KeyedBy.keyRow {r k : Row} (h : KeyedBy schema items r k) : keyRow schema items r = .ok k := by
  obtain ⟨keys, hkeys, rfl⟩ := h
  have hmap : items.mapM (SortItem.key schema r) = .ok keys :=
    mapM_eq_ok (hkeys.imp fun i key hkey => by rw [SortItem.key, hkey]; rfl)
  have hrow : QueryCluster.keyRow schema items r = (items.mapM (SortItem.key schema r) >>= fun keys =>
    pure (Row.withKeys r.values keys)) := rfl
  rw [hrow, hmap]
  rfl

theorem exists_keyedBy {rows : List Row}
    (h : ∀ i ∈ items, ∀ r ∈ rows, ∃ key, i.expr.eval schema r.values = .ok key) :
    ∃ keyed, List.Forall₂ (KeyedBy schema items) rows keyed := by
  induction rows with
  | nil => exact ⟨[], .nil⟩
  | cons r rows ih =>
    obtain ⟨keyed, hkeyed⟩ := ih fun i hi s hs => h i hi s (List.mem_cons_of_mem r hs)
    obtain ⟨keys, hkeys⟩ := exists_mapM_ok fun i hi => h i hi r List.mem_cons_self
    exact ⟨_, .cons ⟨keys, mapM_ok hkeys, rfl⟩ hkeyed⟩

theorem keySchema_eq_ok (h : ∀ i ∈ items, ∃ t, i.expr.typeOf schema = .ok t) :
    ∃ output, keySchema schema items = .ok output := by
  have hfold : ∀ (items : List SortItem) (s : Schema), (∀ i ∈ items, ∃ t, i.expr.typeOf schema = .ok t) →
      ∃ output, items.foldlM (fun (s : Schema) (i : SortItem) => (i.expr.typeOf schema).map s.addKey) s =
        .ok output := by
    intro items
    induction items with
    | nil => exact fun s _ => ⟨s, rfl⟩
    | cons i items ih =>
      intro s h
      obtain ⟨⟨t, ht⟩, hitems⟩ := List.forall_mem_cons.mp h
      obtain ⟨output, houtput⟩ := ih (s.addKey t) hitems
      refine ⟨output, ?_⟩
      rw [List.foldlM_cons, ht]
      exact houtput
  obtain ⟨output, houtput⟩ := hfold items schema.withoutKeys h
  exact ⟨output, by rw [keySchema, houtput]; rfl⟩

/-- The buffer when all rows have arrived. -/
def arrived (items : List SortItem) (output : Schema) (keyed : List Row) : Split :=
  { schema := output, rows := keyed, orders := directionsOf items }

theorem arrived_sort {rows keyed : List Row} (ho : keySchema schema items = .ok output)
    (hkeyed : Keyed schema items rows keyed) (hwidths : ∀ k ∈ keyed, k.values.length = output.columns.length)
    (hmix : Unmixed schema items rows) :
    (arrived items output keyed).sort.rows =
        (keyed.mergeSort fun a b => (compareKeys (directionsOf items) a b).isLE) ∧
      (arrived items output keyed).sort.columns =
        (arrived items output keyed).columns.map (readAt (arrived items output keyed).order) ∧
      (arrived items output keyed).sort.keyColumns =
        (arrived items output keyed).keyColumns.map (readAt (arrived items output keyed).order) ∧
      (arrived items output keyed).sort.flagColumns =
        (arrived items output keyed).flagColumns.map (readAt (arrived items output keyed).order) := by
  obtain ⟨_, hkeys⟩ := keySchema_ok ho
  have hnone : (arrived items output keyed).schema.keys = [] → (arrived items output keyed).orders = [] := by
    intro hnone
    have hitems : items.length = 0 := by
      rw [← hkeys]
      exact List.length_eq_zero_iff.mpr hnone
    rw [arrived, List.length_eq_zero_iff.mp hitems]
    rfl
  have hwell : (arrived items output keyed).WellFormed := fun k hk =>
    ⟨hwidths k hk, (hkeyed.length_keys hk).1.trans hkeys.symm, (hkeyed.length_keys hk).2.trans hkeys.symm⟩
  have hagrees := hkeyed.compareKeys_eq hmix (directionsOf items)
  exact ⟨Split.sort_rows hnone hagrees, Split.sort_arrays hwell hnone hagrees⟩

theorem keyedBy_widths {feed : Feed} {keyed : List Row} (hunder : feed.Under schema)
    (ho : keySchema schema items = .ok output)
    (hkeyed : List.Forall₂ (KeyedBy schema items) (rowsOf feed.splits) keyed) :
    (∀ k ∈ keyed, k.values.length = output.columns.length) ∧
      (rowsOf feed.splits).mapM (keyFitting schema items output.columns.length) = .ok keyed := by
  have hwidths : ∀ r ∈ rowsOf feed.splits, r.values.length = output.columns.length := by
    intro r hr
    obtain ⟨s, hs, hr⟩ := List.mem_flatMap.mp hr
    have hs := hunder.splits s hs
    rw [(keySchema_ok ho).1, ← hs.schema_eq]
    exact (hs.wellFormed r hr).1
  have hfit : List.Forall₂ (fun r k => keyFitting schema items output.columns.length r = .ok k)
      (rowsOf feed.splits) keyed := by
    refine ((List.forall₂_and_left _ _).mpr ⟨hwidths, hkeyed⟩).imp fun r k ⟨hwidth, hk⟩ => ?_
    rw [keyFitting, hk.keyRow, ok_bind, fitting, if_pos ((keyRow_values hk.keyRow).symm ▸ hwidth)]
  refine ⟨fun k hk => ?_, mapM_eq_ok hfit⟩
  obtain ⟨r, _, hr⟩ := exists_of_forall₂ hfit hk
  exact (keyFitting_ok hr).2

/-- What a local sort writes: nothing if the rows are too many, else the sorted buffer. -/
theorem localSort_written (limit : Option Nat) {feed : Feed} {keyed : List Row}
    (hended : feed.Ended schema) (hunder : feed.Under schema)
    (ho : keySchema schema items = .ok output)
    (hkeyed : List.Forall₂ (KeyedBy schema items) (rowsOf feed.splits) keyed) :
    Process.runOn (localSortProcess items limit) (.ok feed) =
      match roomFor limit keyed.length with
      | .error e => { schema := some output, outcome := .error e }
      | .ok _ =>
        { schema := some output
          splits := if (arrived items output keyed).isEmpty then [] else [(arrived items output keyed).sort]
          outcome := .ok ⟨keyed.length, keyed.length⟩ } := by
  obtain ⟨p, hp, hschema, hstart, hfinish, hstep⟩ := localSortProcess_eq limit ho
  have hanswer := answer_buffer hstep (fun s hs => (hunder.splits s hs).schema_eq)
    (keyedBy_widths hunder ho hkeyed).2 p.start
    (roomFor_eq_ok.mpr fun k _ => by rw [hstart]; exact Nat.zero_le k)
  have hempty : p.start.rowCount + keyed.length = keyed.length := by
    rw [hstart]
    exact Nat.zero_add _
  have hbuffer : ({ p.start with rows := p.start.rows ++ keyed } : Split) = arrived items output keyed := by
    rw [hstart]
    rfl
  rw [hempty, hbuffer] at hanswer
  rw [Process.runOn_ok hended.schema_eq hp]
  rcases hroom : roomFor limit keyed.length with e | _
  · rw [hroom] at hanswer
    rw [Process.run_failed hanswer, hschema]
  · rw [hroom] at hanswer
    have hin : countRows feed.splits = keyed.length := by
      rw [← length_rowsOf, hkeyed.length_eq]
    have hout : countRows (if (arrived items output keyed).isEmpty then []
        else [(arrived items output keyed).sort]) = keyed.length := by
      rw [← length_rowsOf, (written_sort _).1, (sort_perm _).length_eq]
      rfl
    rw [Process.run_answered hended.fault_eq hanswer, hfinish, hschema, List.nil_append, hin, hout]

/-- A local sort over inputs that end well under one schema, whose items have a type and a key for every
row and mix no whole numbers with floats. If all rows together are more than a limit allows, it tells the
limit and has written nothing. Otherwise it writes the stable sort of all rows in the order in which they
arrived, each with its own keys: every array of values, keys and flags is read in one order. -/
theorem localSort_sorts (w : Workplace) (arrival : List Nat) {inputs : List Feed} (hne : inputs ≠ [])
    (hinputs : ∀ f ∈ inputs, f.Ended schema ∧ f.Under schema)
    (htypes : ∀ i ∈ items, ∃ t, i.expr.typeOf schema = .ok t)
    (hevals : ∀ i ∈ items, ∀ r ∈ Feed.rows inputs, ∃ key, i.expr.eval schema r.values = .ok key)
    (hmix : Unmixed schema items (Feed.rows inputs)) :
    ∃ feed output keyed, Feed.gather arrival inputs = .ok feed ∧
      Interleaves (inputs.map (·.splits)) feed.splits ∧
      List.Forall₂ (KeyedBy schema items) (rowsOf feed.splits) keyed ∧
      keyed.length = (Feed.rows inputs).length ∧ keySchema schema items = .ok output ∧
      ((Operator.localSort items).run w arrival inputs).schema = some output ∧
      ((∃ n, w.sortLimit = some n ∧ n < (Feed.rows inputs).length ∧
          ((Operator.localSort items).run w arrival inputs).splits = [] ∧
          ((Operator.localSort items).run w arrival inputs).outcome = .error (.sortLimit n)) ∨
        (∀ n, w.sortLimit = some n → (Feed.rows inputs).length ≤ n) ∧
          ((Operator.localSort items).run w arrival inputs).outcome =
            .ok ⟨(Feed.rows inputs).length, (Feed.rows inputs).length⟩ ∧
          rowsOf ((Operator.localSort items).run w arrival inputs).splits =
            (keyed.mergeSort fun a b => (compareKeys (directionsOf items) a b).isLE) ∧
          ∀ s ∈ ((Operator.localSort items).run w arrival inputs).splits,
            s.columns = (arrived items output keyed).columns.map
                (readAt (arrived items output keyed).order) ∧
              s.keyColumns = (arrived items output keyed).keyColumns.map
                (readAt (arrived items output keyed).order) ∧
              s.flagColumns = (arrived items output keyed).flagColumns.map
                (readAt (arrived items output keyed).order)) := by
  obtain ⟨feed, hgather, hended, hunder, hweave⟩ := Feed.gather_ended arrival hne hinputs
  obtain ⟨output, ho⟩ := keySchema_eq_ok htypes
  have hrows : (rowsOf feed.splits).Perm (Feed.rows inputs) :=
    Feed.rowsOf_perm (List.flatMap_def (f := Feed.splits) ▸ hweave.perm)
  obtain ⟨keyed, hkeyed⟩ := exists_keyedBy fun i hi r hr => hevals i hi r (hrows.mem_iff.mp hr)
  have hlength : keyed.length = (Feed.rows inputs).length := hkeyed.length_eq.symm.trans hrows.length_eq
  have hrun : (Operator.localSort items).run w arrival inputs = _ :=
    (congrArg (Process.runOn (localSortProcess items w.sortLimit)) hgather).trans
      (localSort_written w.sortLimit hended hunder ho hkeyed)
  refine ⟨feed, output, keyed, hgather, hweave, hkeyed, hlength, ho, ?_⟩
  rw [hrun, ← hlength]
  rcases hroom : roomFor w.sortLimit keyed.length with e | _
  · obtain ⟨n, hlimit, hlt, rfl⟩ := roomFor_eq_error hroom
    exact ⟨rfl, .inl ⟨n, hlimit, hlt, rfl, rfl⟩⟩
  · obtain ⟨hsorted, harrays⟩ := arrived_sort ho (hkeyed.imp fun _ _ => KeyedBy.keyRow)
      (keyedBy_widths hunder ho hkeyed).1 (hmix.mono fun r hr => hrows.mem_iff.mp hr)
    obtain ⟨hwritten, hall⟩ := written_sort (arrived items output keyed)
    refine ⟨rfl, .inr ⟨roomFor_eq_ok.mp hroom, rfl, hwritten.trans hsorted, fun s hs => ?_⟩⟩
    rw [hall s hs]
    exact harrays

section Arrival

def namedNumbers : Schema := { columns := [⟨"t", .utf8⟩, ⟨"n", .int64⟩] }

def namedNumber (name : String) (n : Int64) : Row := { values := [.text name, .int64 n] }

/-- Two inputs with equal numbers. -/
def namedFeeds : List Feed :=
  [[[("a", 2), ("b", 1)]], [[("c", 1)], [("d", 2)]]].map fun cuts =>
    .ofSplits namedNumbers (cuts.map fun rows =>
      { schema := namedNumbers, rows := rows.map fun (name, n) => namedNumber name n })

def byNumberDown : List SortItem := [⟨.column "n", .descending⟩]

theorem namedFeeds_ended : ∀ f ∈ namedFeeds, f.Ended namedNumbers ∧ f.Under namedNumbers := by
  refine List.forall_mem_map.mpr fun cuts _ => ⟨⟨rfl, rfl⟩, fun s h => (Except.ok.inj h).symm, ?_⟩
  refine List.forall_mem_map.mpr fun rows _ => ⟨rfl, ?_⟩
  exact List.forall_mem_map.mpr fun _ _ => ⟨rfl, rfl, rfl⟩

theorem namedFeeds_rows : Feed.rows namedFeeds =
    [("a", 2), ("b", 1), ("c", 1), ("d", 2)].map fun (name, n) => namedNumber name n := rfl

theorem eval_namedNumber (name : String) (n : Int64) :
    ∀ i ∈ byNumberDown, i.expr.eval namedNumbers (namedNumber name n).values = .ok (some (.int64 n)) :=
  List.forall_mem_singleton.mpr rfl

/-- The second input comes first. A limit of three is too low for four rows that come in threes at most,
and a limit of four is not. -/
theorem localSort_sorts_arrival :
    ((Operator.localSort byNumberDown).run { emptyWorkplace 2 with sortLimit := some 3 } [1, 0]
        namedFeeds).outcome = .error (.sortLimit 3) ∧
      ((Operator.localSort byNumberDown).run { emptyWorkplace 2 with sortLimit := some 4 } [1, 0]
        namedFeeds).outcome = .ok ⟨4, 4⟩ ∧
      (rowsOf ((Operator.localSort byNumberDown).run { emptyWorkplace 2 with sortLimit := some 4 } [1, 0]
        namedFeeds).splits).map (·.values.head?) =
          [some (.text "a"), some (.text "d"), some (.text "c"), some (.text "b")] := by
  have htypes : ∀ i ∈ byNumberDown, ∃ t, i.expr.typeOf namedNumbers = .ok t :=
    List.forall_mem_singleton.mpr ⟨.int64, rfl⟩
  have hevals : ∀ i ∈ byNumberDown, ∀ r ∈ Feed.rows namedFeeds,
      ∃ key, i.expr.eval namedNumbers r.values = .ok key := fun i hi => by
    rw [namedFeeds_rows]
    exact List.forall_mem_map.mpr fun (name, n) _ => ⟨_, eval_namedNumber name n i hi⟩
  have hmix : Unmixed namedNumbers byNumberDown (Feed.rows namedFeeds) := fun i hi => by
    rw [namedFeeds_rows]
    refine List.forall_mem_map.mpr fun (s, m) _ => List.forall_mem_map.mpr fun (t, n) _ => ?_
    intro x y hx hy
    rw [eval_namedNumber s m i hi] at hx
    rw [eval_namedNumber t n i hi] at hy
    rw [← Option.some.inj (Except.ok.inj hx), ← Option.some.inj (Except.ok.inj hy)]
    simp [Value.Mixed, Value.isReal]
  have hsorts := fun limit => localSort_sorts { emptyWorkplace 2 with sortLimit := some limit } [1, 0]
    (by simp [namedFeeds]) namedFeeds_ended htypes hevals hmix
  refine ⟨?_, ?_, by decide +kernel⟩
  · obtain ⟨_, _, _, _, _, _, _, _, _, ⟨n, hn, _, _, houtcome⟩ | ⟨hroom, _⟩⟩ := hsorts 3
    · rw [houtcome, Option.some.inj hn]
    · exact absurd (hroom 3 rfl) (by decide)
  · obtain ⟨_, _, _, _, _, _, _, _, _, ⟨n, hn, hlt, _⟩ | ⟨_, houtcome, _⟩⟩ := hsorts 4
    · rw [← Option.some.inj hn] at hlt
      exact absurd hlt (by decide)
    · exact houtcome

end Arrival

end QueryCluster
