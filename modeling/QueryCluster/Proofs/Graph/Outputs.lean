import QueryCluster.Proofs.Graph.RowCounts
import QueryCluster.Proofs.Graph.TypedNodes
import QueryCluster.Proofs.Operator.LocalSort

/-!
# What each output gets

Every row has one output, named by the partitioning, by the keys of the row and by the number of non-empty
splits before its own. A router whose splits match its schema meets no fault, and from each output its own
rows are read back, in the order of their arrival.
-/
namespace QueryCluster

open StreamWriter (Fits batches batchesOf stream)

/-- What can be seen of a row. What is stored under an absent key cannot. -/
def Row.shown (row : Row) : List Value × List Bool × List (Option Value) :=
  (row.values, row.flags, (List.range row.flags.length).map row.key?)

/-- A finished stream under a schema that reads as some rows. -/
structure Output.Received (schema : Schema) (rows : List Row) (o : Output) : Prop where
  finished : o.writer = none
  header : (StreamReader.ofBytes o.sent).readSchema.1 = .ok schema
  content : (StreamReader.ofBytes o.sent).readAll.1 = .ok { schema, rows }

/-- The splits that have rows, each with its number. -/
def numbered (first : Nat) (splits : List Split) : List (Split × Nat) :=
  (splits.filter fun s => !s.isEmpty).zipIdx first

/-- All rows in the order of their arrival, each with the number of its split. -/
def arrivals (first : Nat) (splits : List Split) : List (Nat × Row) :=
  (numbered first splits).flatMap fun sk => sk.1.rows.map fun row => (sk.2, row)

namespace Partitioning

/-- The values of a row under the columns with the given names. -/
def keyOf (schema : Schema) (names : List String) (row : Row) : List Value :=
  (names.filterMap schema.indexOf?).map fun c => row.values[c]?.getD .null

/-- Which of `n` outputs a row goes to. -/
def target (p : Partitioning) (schema : Schema) (n : Nat) (arrival : Nat × Row) : Nat :=
  match p with
  | .single | .oneToOne => 0
  | .roundRobin => arrival.1 % n
  | .hash names => hashPartition (keyOf schema names arrival.2) n

/-- How a row travels: nothing is stored under an absent key any more once it has been in a bucket. -/
def carried (p : Partitioning) (keys : Nat) (row : Row) : Row :=
  match p with
  | .hash _ => Row.withKeys row.values ((List.range keys).map row.key?)
  | _ => row

/-- What output `i` of `n` gets of a split. -/
def part (p : Partitioning) (schema : Schema) (n i : Nat) (sk : Split × Nat) : Split :=
  let own := sk.1.rows.filter fun row => p.target schema n (sk.2, row) == i
  { sk.1 with rows := own.map (p.carried sk.1.schema.keys.length) }

/-- What output `i` of `n` gets of many splits. -/
def parts (p : Partitioning) (schema : Schema) (n first : Nat) (splits : List Split) (i : Nat) :
    List Split :=
  (numbered first splits).map (p.part schema n i)

/-- The schema has all columns that rows are routed by. -/
def KeysIn (p : Partitioning) (schema : Schema) : Prop :=
  ∀ names, p = .hash names → ∀ name ∈ names, (schema.indexOf? name).isSome

end Partitioning

variable {schema : Schema} {p : Partitioning} {n first : Nat} {s : Split} {splits : List Split}

theorem numbered_of_isEmpty (h : s.isEmpty) : numbered first (s :: splits) = numbered first splits := by
  rw [numbered, List.filter_cons_of_neg (by simp [h]), numbered]

theorem numbered_of_not_isEmpty (h : ¬ s.isEmpty) :
    numbered first (s :: splits) = (s, first) :: numbered (first + 1) splits := by
  rw [numbered, List.filter_cons_of_pos (by simpa using h), List.zipIdx_cons, numbered]

theorem mem_of_mem_numbered {sk : Split × Nat} (h : sk ∈ numbered first splits) : sk.1 ∈ splits :=
  List.mem_of_mem_filter (List.fst_mem_of_mem_zipIdx h)

/-- No row arrives in an empty split. -/
theorem map_snd_arrivals (first : Nat) (splits : List Split) :
    (arrivals first splits).map Prod.snd = rowsOf splits := by
  induction splits generalizing first with
  | nil => rfl
  | cons s splits ih =>
    rw [rowsOf_cons]
    by_cases he : s.isEmpty
    · have hrows : s.rows = [] := List.isEmpty_iff.mp he
      rw [arrivals, numbered_of_isEmpty he, hrows, List.nil_append]
      exact ih first
    · rw [arrivals, numbered_of_not_isEmpty he, List.flatMap_cons, List.map_append, List.map_map]
      exact congrArg₂ _ (List.map_id _) (ih (first + 1))

namespace Row

variable {row : Row} (h : row.Fits schema)
include h

theorem map_isSome_key? :
    ((List.range schema.keys.length).map row.key?).map (·.isSome) = row.flags := by
  obtain ⟨_, hkeys, hflags⟩ := h
  apply List.ext_getElem
  · simp [hflags]
  · intro k hk _
    have hk : k < schema.keys.length := by simpa using hk
    rw [List.getElem_map, List.getElem_map, List.getElem_range, key?, List.getElem?_eq_getElem (by omega)]
    cases row.flags[k] <;> simp [hkeys, hk]

theorem shown_withKeys :
    (withKeys row.values ((List.range schema.keys.length).map row.key?)).shown = row.shown := by
  have hflags : (withKeys row.values ((List.range schema.keys.length).map row.key?)).flags = row.flags :=
    map_isSome_key? h
  rw [shown, shown, hflags, h.2.2]
  exact congrArg (fun keys => (row.values, row.flags, keys))
    (List.map_congr_left fun k hk => by
      rw [key?_withKeys, List.getElem?_map, List.getElem?_range (List.mem_range.mp hk)]
      rfl)

/-- A bucket changes nothing that can be seen of a row. -/
theorem shown_carried (p : Partitioning) : (p.carried schema.keys.length row).shown = row.shown := by
  cases p with
  | hash names => exact shown_withKeys h
  | _ => rfl

end Row

namespace Partitioning

theorem target_lt (hn : 0 < n) (p : Partitioning) (schema : Schema) (arrival : Nat × Row) :
    p.target schema n arrival < n := by
  cases p with
  | single => exact hn
  | oneToOne => exact hn
  | roundRobin => exact Nat.mod_lt _ hn
  | hash names => exact hashPartition_lt _ hn

/-- Where no two rows of a split have different outputs, it goes to one output as it is. -/
theorem part_of_whole (hp : ∀ names, p ≠ .hash names) (i : Nat) (s : Split) (k : Nat) :
    p.part schema n i (s, k) =
      if i = p.target schema n (k, default) then s else { s with rows := [] } := by
  have htarget : ∀ row, p.target schema n (k, row) = p.target schema n (k, default) := by
    cases p with
    | hash names => exact absurd rfl (hp names)
    | _ => exact fun _ => rfl
  have hcarried : p.carried s.schema.keys.length = id := by
    cases p with
    | hash names => exact absurd rfl (hp names)
    | _ => rfl
  simp only [part, hcarried, List.map_id, htarget]
  by_cases hi : i = p.target schema n (k, default)
  · rw [if_pos hi, List.filter_eq_self.mpr fun _ _ => beq_iff_eq.mpr hi.symm]
  · rw [if_neg hi, List.filter_eq_nil_iff.mpr fun _ _ => by simpa using Ne.symm hi]

/-- The rows of an output are those of all arrivals that it is the target of. -/
theorem rowsOf_parts (hw : ∀ s ∈ splits, s.WellFormed) (i : Nat) :
    (rowsOf (p.parts schema n first splits i)).map Row.shown =
      ((arrivals first splits).filter fun a => p.target schema n a == i).map fun a => a.2.shown := by
  rw [parts, rowsOf, arrivals, List.flatMap_map, List.map_flatMap, List.filter_flatMap, List.map_flatMap]
  refine List.flatMap_congr fun sk hsk => ?_
  rw [List.filter_map, List.map_map, part, List.map_map]
  exact List.map_congr_left fun row hrow =>
    Row.shown_carried (hw sk.1 (mem_of_mem_numbered hsk) row (List.mem_of_mem_filter hrow)) p

theorem parts_shaped (hs : ∀ s ∈ splits, s.Shaped schema) {i : Nat} :
    ∀ t ∈ p.parts schema n first splits i, t.Shaped schema := by
  intro t ht
  obtain ⟨sk, hsk, rfl⟩ := List.mem_map.mp ht
  exact hs sk.1 (mem_of_mem_numbered hsk)

theorem parts_fit (hs : ∀ s ∈ splits, s.Shaped schema) (hw : ∀ s ∈ splits, s.WellFormed) {i : Nat} :
    ∀ row ∈ rowsOf (p.parts schema n first splits i), row.Fits schema := by
  intro row hrow
  obtain ⟨t, ht, hrow⟩ := List.mem_flatMap.mp hrow
  obtain ⟨sk, hsk, rfl⟩ := List.mem_map.mp ht
  obtain ⟨hcolumns, hkeys⟩ := hs sk.1 (mem_of_mem_numbered hsk)
  obtain ⟨old, hold, rfl⟩ := List.mem_map.mp hrow
  have hfits := hw sk.1 (mem_of_mem_numbered hsk) old (List.mem_of_mem_filter hold)
  rw [Row.Fits, hcolumns, hkeys] at hfits
  cases p with
  | hash names => refine ⟨hfits.1, ?_, ?_⟩ <;> simp [carried, Row.withKeys, hkeys]
  | _ => exact hfits

end Partitioning

theorem StreamWriter.batches_of_isEmpty (h : s.isEmpty) (m : Nat) : batches s m = [] := by
  rw [batches, List.isEmpty_iff.mp h, StreamWriter.chunks, if_pos (.inl rfl), List.map_nil]

theorem flatMap_unlessEmpty (s : Split) (m : Nat) : (unlessEmpty s).flatMap (batches · m) = batches s m := by
  rw [unlessEmpty]
  split
  · rename_i he
    exact (StreamWriter.batches_of_isEmpty he m).symm
  · exact List.append_nil _

namespace Router

/-- A router that routes by a partitioning and has so many non-empty splits behind it. -/
structure Routes (p : Partitioning) (schema : Schema) (n behind : Nat) (r : Router) : Prop where
  partitioning : r.partitioning = p
  outputs : r.outputs.length = n
  keyColumns : ∀ names, p = .hash names → r.keyColumns = names.filterMap schema.indexOf?
  turn : p = .roundRobin → r.turn = behind % n

variable {r : Router} {behind : Nat}

theorem Routes.turned (h : r.Routes p schema n behind) (he : ¬ s.isEmpty) :
    (r.turned s).Routes p schema n (behind + 1) where
  partitioning := (turned_partitioning r s).trans h.partitioning
  outputs := (congrArg _ (turned_outputs r s)).trans h.outputs
  keyColumns names hp := (turned_keyColumns r s).trans (h.keyColumns names hp)
  turn hp := by
    have hround : r.partitioning = .roundRobin := h.partitioning.trans hp
    rw [Router.turned, hround]
    simp only [if_neg he, h.outputs, h.turn hp, Nat.mod_add_mod]

/-- The share of an output in a split is cut into the same batches as its part. -/
theorem Routes.batches_share (h : r.Routes p schema n behind) (s : Split) (i m : Nat) :
    (r.share s i).flatMap (batches · m) = batches (p.part schema n i (s, behind)) m := by
  have hone : ∀ t, (if i = t then unlessEmpty s else []).flatMap (batches · m) =
      batches (if i = t then s else { s with rows := [] }) m := by
    intro t
    split
    · exact flatMap_unlessEmpty s m
    · exact (StreamWriter.batches_of_isEmpty rfl m).symm
  cases p with
  | hash names =>
    have hkey : ∀ row, r.keyOf row = Partitioning.keyOf schema names row := fun row => by
      rw [keyOf, Partitioning.keyOf, h.keyColumns names rfl]
    simp only [share, h.partitioning, flatMap_unlessEmpty, bucket, hkey, h.outputs]
    rfl
  | roundRobin =>
    rw [Partitioning.part_of_whole (by simp), share, h.partitioning]
    simp only [h.turn rfl]
    exact hone _
  | _ =>
    rw [Partitioning.part_of_whole (by simp), share, h.partitioning]
    exact hone 0

theorem Routes.batches_shares (h : r.Routes p schema n behind) (i m : Nat) :
    (r.shares splits i).flatMap (batches · m) =
      (p.parts schema n behind splits i).flatMap (batches · m) := by
  induction splits generalizing r behind with
  | nil => rfl
  | cons s splits ih =>
    by_cases he : s.isEmpty
    · rw [shares, share_of_isEmpty he, turned_of_isEmpty he, List.nil_append, ih h, Partitioning.parts,
        Partitioning.parts, numbered_of_isEmpty he]
    · rw [shares, List.flatMap_append, h.batches_share, ih (h.turned he), Partitioning.parts,
        Partitioning.parts, numbered_of_not_isEmpty he, List.map_cons, List.flatMap_cons]

theorem mapM_keyColumn {names : List String} (h : ∀ name ∈ names, (schema.indexOf? name).isSome) :
    names.mapM (keyColumn schema) = .ok (names.filterMap schema.indexOf?) := by
  induction names with
  | nil => rfl
  | cons name names ih =>
    obtain ⟨hhead, hrest⟩ := List.forall_mem_cons.mp h
    obtain ⟨c, hc⟩ := Option.isSome_iff_exists.mp hhead
    have hcolumn : keyColumn schema name = .ok c := by rw [keyColumn, hc]
    rw [List.mapM_cons, hcolumn, ih hrest, List.filterMap_cons_some hc]
    rfl

theorem columnsOf_eq (h : p.KeysIn schema) :
    ∃ keyColumns, columnsOf p schema = .ok keyColumns ∧
      ∀ names, p = .hash names → keyColumns = names.filterMap schema.indexOf? := by
  cases p with
  | hash names => exact ⟨_, mapM_keyColumn (h names rfl), fun _ heq => by cases heq; rfl⟩
  | _ => exact ⟨[], rfl, fun _ heq => by cases heq⟩

theorem opened_routes {batchRows : Nat} {keyColumns : List Nat}
    (hk : ∀ names, p = .hash names → keyColumns = names.filterMap schema.indexOf?) :
    (opened n p batchRows keyColumns).Routes p schema n 0 where
  partitioning := rfl
  outputs := length_opened
  keyColumns := hk
  turn _ := (Nat.zero_mod n).symm

/-- No split that matches the schema meets a fault, and every output ends as a stream of its parts. -/
theorem finish_writeSplits (hn : 0 < n) (hk : p.KeysIn schema) (hs : ∀ s ∈ splits, s.Shaped schema)
    (batchRows : Nat) :
    ∃ r₁ r₂ r₃ : Router, (start n p batchRows).writeSchema schema = (none, r₁) ∧
      r₁.writeSplits splits = (none, r₂) ∧ r₂.finish = (none, r₃) ∧
        r₃.outputs = (List.range n).map fun i =>
          ⟨none, stream schema (batchesOf batchRows (p.parts schema n 0 splits i))⟩ := by
  obtain ⟨keyColumns, hc, hcolumns⟩ := columnsOf_eq hk
  obtain ⟨r₁, hschema, hopen⟩ := @writeSchema_open schema n batchRows p keyColumns hc
  obtain ⟨r₂, hsplits, _⟩ := writeSplits_open hs hopen
  -- there is no fault, so what the outputs hold is known
  obtain ⟨_, hc', rfl⟩ := writeSchema_ok hschema
  obtain rfl := Except.ok.inj (hc.symm.trans hc')
  have hlength : (opened n p batchRows keyColumns).outputs.length = n := length_opened
  have houtputs := writeSplits_ok (r := opened n p batchRows keyColumns) (by rwa [hlength])
    (by rw [hlength]; exact hsplits)
  rw [hlength] at houtputs
  have hbatches : ∀ i, ((opened n p batchRows keyColumns).shares splits i).flatMap
      (batches · (max batchRows 1)) = batchesOf batchRows (p.parts schema n 0 splits i) :=
    fun i => (opened_routes hcolumns).batches_shares i _
  refine ⟨_, r₂, { r₂ with outputs := _ }, hschema, hsplits, ?_, rfl⟩
  rw [finish, houtputs, finishFrom_written, List.range_eq_range']
  simp only [List.nil_append, hbatches]

theorem received_stream {batchRows : Nat} (hc : schema.Counts) (hs : ∀ s ∈ splits, s.Shaped schema)
    (hrows : ∀ row ∈ rowsOf splits, row.Fits schema)
    (hfit : Fits maxPayload schema (batchesOf batchRows splits)) :
    Output.Received schema (rowsOf splits) ⟨none, stream schema (batchesOf batchRows splits)⟩ where
  finished := rfl
  header := by rw [stream, StreamReader.readSchema_schemaFrame _ hfit.schema]
  content := by
    have hsame := StreamWriter.rowsOf_batchesOf batchRows splits
    rw [StreamReader.readAll_stream (fun b => StreamWriter.batchesOf_shaped hs) hfit,
      StreamReader.rowsOf_delivered hc (hsame ▸ hrows), hsame]

/-- Each row arrives at one output, which its partitioning names, and the rows of an output stay in order. -/
theorem rows_reach_targets {batchRows : Nat} (hn : 0 < n) (hcolumns : schema.columns ≠ [])
    (hk : p.KeysIn schema) (hs : ∀ s ∈ splits, s.Shaped schema ∧ s.WellFormed)
    (hfit : ∀ i < n, Fits maxPayload schema (batchesOf batchRows (p.parts schema n 0 splits i))) :
    ∃ (r₁ r₂ r₃ : Router) (received : Nat → List Row),
      (start n p batchRows).writeSchema schema = (none, r₁) ∧ r₁.writeSplits splits = (none, r₂) ∧
      r₂.finish = (none, r₃) ∧ r₃.outputs.length = n ∧
      (∀ i (o : Output), r₃.outputs[i]? = some o → o.Received schema (received i)) ∧
      (∀ i < n, (received i).map Row.shown =
        ((arrivals 0 splits).filter fun a => p.target schema n a == i).map fun a => a.2.shown) ∧
      (∀ a ∈ arrivals 0 splits, p.target schema n a < n) ∧
      (((List.range n).flatMap received).map Row.shown).Perm ((rowsOf splits).map Row.shown) ∧
      ∀ names, p = .hash names → ∀ a ∈ arrivals 0 splits, ∀ b ∈ arrivals 0 splits,
        keyBytes (Partitioning.keyOf schema names a.2) = keyBytes (Partitioning.keyOf schema names b.2) →
          p.target schema n a = p.target schema n b := by
  have hshaped : ∀ s ∈ splits, s.Shaped schema := fun s h => (hs s h).1
  have hwell : ∀ s ∈ splits, s.WellFormed := fun s h => (hs s h).2
  obtain ⟨r₁, r₂, r₃, hschema, hsplits, hfinish, houtputs⟩ :=
    finish_writeSplits hn hk hshaped batchRows
  have hparts : ∀ i, (rowsOf (p.parts schema n 0 splits i)).map Row.shown = _ :=
    fun i => Partitioning.rowsOf_parts hwell i
  refine ⟨r₁, r₂, r₃, fun i => rowsOf (p.parts schema n 0 splits i), hschema, hsplits, hfinish,
    by rw [houtputs, List.length_map, List.length_range], fun i o ho => ?_, fun i _ => hparts i,
    fun a _ => p.target_lt hn schema a, ?_, ?_⟩
  · rw [houtputs] at ho
    obtain ⟨hi, rfl⟩ := of_getElem?_map_range ho
    exact received_stream (.inl hcolumns) (Partitioning.parts_shaped hshaped)
      (Partitioning.parts_fit hshaped hwell) (hfit i hi)
  · -- the arrivals are parted by their targets, and seen alike they are the rows
    rw [List.map_flatMap, ← map_snd_arrivals 0, List.map_map]
    simp only [hparts]
    rw [← List.map_flatMap]
    exact (flatMap_filter_perm fun a _ => p.target_lt hn schema a).map _
  · rintro names rfl a _ b _ hsame
    simp only [Partitioning.target, hashPartition, hsame]

/-- Rows with one key, which is null in one row and absent from another one. -/
def fares : Split where
  schema := { columns := [⟨"line", .int64⟩, ⟨"zone", .utf8⟩], keys := [⟨"__key0", .int64⟩] }
  rows := [⟨[.int64 1, .text "N"], [.int64 3], [true]⟩, ⟨[.int64 2, .text "S"], [.int64 9], [false]⟩,
    ⟨[.int64 1, .text "E"], [.null], [true]⟩]

def lateFares : Split := { fares with rows := [⟨[.int32 2, .text "W"], [.int64 4], [true]⟩] }

theorem fits_fares : ∀ i < 2, Fits maxPayload fares.schema (batchesOf 2 ((Partitioning.hash ["line"]).parts
    fares.schema 2 0 [fares, { fares with rows := [] }, lateFares] i)) := by
  decide +kernel

theorem rows_reach_targets_fares : ∃ (r₁ r₂ r₃ : Router) (received : Nat → List Row),
    (start 2 (.hash ["line"]) 2).writeSchema fares.schema = (none, r₁) ∧
      r₁.writeSplits [fares, { fares with rows := [] }, lateFares] = (none, r₂) ∧
      r₂.finish = (none, r₃) ∧ r₃.outputs.length = 2 ∧
      (∀ i (o : Output), r₃.outputs[i]? = some o → o.Received fares.schema (received i)) ∧
      (received 0).map Row.shown = [([.int64 2, .text "S"], [false], [none]),
        ([.int32 2, .text "W"], [true], [some (.int64 4)])] ∧
      (received 1).map Row.shown = [([.int64 1, .text "N"], [true], [some (.int64 3)]),
        ([.int64 1, .text "E"], [true], [some .null])] := by
  have hmatch : ∀ s ∈ [fares, { fares with rows := [] }, lateFares],
      s.Shaped fares.schema ∧ s.WellFormed := by
    simp [fares, lateFares, Split.Shaped, Split.WellFormed, Row.Fits]
  obtain ⟨r₁, r₂, r₃, received, hschema, hsplits, hfinish, hlength, hreceived, hrows, _⟩ :=
    rows_reach_targets (p := .hash ["line"]) (n := 2) (by decide) (List.cons_ne_nil _ _)
      (by rintro _ ⟨⟩; decide) hmatch fits_fares
  refine ⟨r₁, r₂, r₃, received, hschema, hsplits, hfinish, hlength, hreceived, ?_, ?_⟩
  · rw [hrows 0 (by decide)]
    decide +kernel
  · rw [hrows 1 (by decide)]
    decide +kernel

end Router
end QueryCluster
