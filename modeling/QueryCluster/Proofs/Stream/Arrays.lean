import Mathlib.Data.List.Forall2
import QueryCluster.Message.Results
import QueryCluster.Proofs.Stream.Calls
import QueryCluster.Proofs.Text.Base64

/-!
# Arrays read back

A reader hands out, split by split and in the order of writing, batches that together hold the columns, the
keys and the flags of the split. What is stored under an absent key is one of its keys. Nothing here
looks at a value: every one is taken from its bytes as it went in.
-/
namespace QueryCluster

namespace Split

variable {schema : Schema}

/-- Whatever is read off a row within the width of the schema is read off what arrives of it. -/
theorem map_delivered {α : Type} {f : Row → α} (hc : schema.Counts)
    (hf : ∀ r : Row, f (r.squared schema) = f r) (s : Split) :
    (s.delivered schema).rows.map f = s.rows.map f := by
  simp [delivered, hc, hf]

theorem flatMap_map_rows {α : Type} (f : Row → α) (splits : List Split) :
    splits.flatMap (fun s => s.rows.map f) = (rowsOf splits).map f := by
  simp [rowsOf, List.map_flatMap]

/-- Batches of at most `n` rows that hold the arrays of a split, one piece after another. -/
structure CutInto (s : Split) (n : Nat) (schema : Schema) (batches : List Split) : Prop where
  count : batches.length = (s.rowCount + (n - 1)) / n
  sizes : ∀ b ∈ batches, b.schema = schema ∧ b.rowCount ≤ n
  columns : ∀ c < schema.columns.length, batches.flatMap (·.column c) = s.column c
  keys : ∀ k < schema.keys.length, batches.flatMap (·.keyColumn k) = s.keyColumn k
  flags : ∀ k < schema.keys.length, batches.flatMap (·.flagColumn k) = s.flagColumn k

/-- Splits under one schema with the same columns, keys and flags. -/
structure SameArrays (s t : Split) : Prop where
  schema : t.schema = s.schema
  columns : t.columns = s.columns
  keys : t.keyColumns = s.keyColumns
  flags : t.flagColumns = s.flagColumns

theorem CutInto.sameArrays {s : Split} {n : Nat} {batches : List Split}
    (h : s.CutInto n s.schema batches) : s.SameArrays { schema := s.schema, rows := rowsOf batches } where
  schema := rfl
  columns := List.map_congr_left fun c hc =>
    (flatMap_map_rows _ batches).symm.trans (h.columns c (List.mem_range.mp hc))
  keys := List.map_congr_left fun k hk =>
    (flatMap_map_rows _ batches).symm.trans (h.keys k (List.mem_range.mp hk))
  flags := List.map_congr_left fun k hk =>
    (flatMap_map_rows _ batches).symm.trans (h.flags k (List.mem_range.mp hk))

end Split

namespace StreamWriter

theorem length_chunks {α : Type} {n : Nat} (hn : 0 < n) (as : List α) :
    (chunks n as).length = (as.length + (n - 1)) / n := by
  fun_induction chunks n as with
  | case1 as h =>
    have hzero : as.length = 0 := h.resolve_right (Nat.ne_of_gt hn)
    rw [hzero, Nat.zero_add, Nat.div_eq_of_lt (by omega)]
    rfl
  | case2 as h ih =>
    have hmore : 0 < as.length := Nat.pos_of_ne_zero fun hzero => h (.inl hzero)
    have hlast : as.length + (n - 1) = as.length - 1 + n := by omega
    rw [List.length_cons, ih, List.length_drop, hlast, Nat.add_div_right _ hn]
    by_cases hle : as.length ≤ n
    · rw [Nat.div_eq_of_lt (by omega), Nat.div_eq_of_lt (by omega)]
    · have hrest : as.length - n + (n - 1) = as.length - 1 := by omega
      rw [hrest]

variable {schema : Schema} {n : Nat}

theorem map_batches_delivered {α : Type} {f : Row → α} (hn : 0 < n) (hc : schema.Counts)
    (hf : ∀ r : Row, f (r.squared schema) = f r) (s : Split) :
    ((batches s n).map (·.delivered schema)).flatMap (fun b => b.rows.map f) = s.rows.map f := by
  rw [List.flatMap_map, List.flatMap_congr fun b _ => Split.map_delivered hc hf b,
    Split.flatMap_map_rows, rowsOf_batches s hn]

theorem cutInto_batches {s : Split} (hn : 0 < n) :
    s.CutInto n schema ((batches s n).map (·.delivered schema)) where
  count := by rw [List.length_map, batches, List.length_map, length_chunks hn]; rfl
  sizes := by
    intro _ hm
    obtain ⟨b, hb, rfl⟩ := List.mem_map.mp hm
    have hle := (rowCount_batches hb).2
    rw [Split.rowCount_delivered]
    refine ⟨rfl, ?_⟩
    split <;> omega
  columns c hc := map_batches_delivered hn (.inl (List.ne_nil_of_length_pos (Nat.zero_lt_of_lt hc)))
    (fun r => by simp [Row.squared, hc]) s
  keys k hk := map_batches_delivered hn (.inr (List.ne_nil_of_length_pos (Nat.zero_lt_of_lt hk)))
    (fun r => by simp [Row.squared, hk]) s
  flags k hk := map_batches_delivered hn (.inr (List.ne_nil_of_length_pos (Nat.zero_lt_of_lt hk)))
    (fun r => by simp [Row.squared, hk]) s

end StreamWriter

open StreamWriter (Fits Written writeAll batchesOf batches cutInto_batches)

theorem decodeResults_encodeResults {s : Split} {batchRows : Nat}
    (hfit : Fits maxPayload s.schema (batches s (max batchRows 1))) :
    ∃ t, decodeResults (encodeResults s batchRows) = .ok t ∧ s.SameArrays t := by
  have hs : ∀ b ∈ batches s (max batchRows 1), b.Shaped s.schema := fun b =>
    StreamWriter.batches_shaped ⟨rfl, rfl⟩
  refine ⟨_, ?_, (cutInto_batches (StreamWriter.max_one_pos batchRows)).sameArrays⟩
  rw [decodeResults, encodeResults, Text.Base64.decode?_encode, StreamWriter.ofSplit_eq]
  simp only [StreamReader.readAll_stream hs hfit]
  rfl

/-- A stream reads back as it was written, whatever the batch size, and so do results. -/
theorem stream_reads_back (batchRows : Nat) :
    (∀ schema splits, (∀ s ∈ splits, s.Shaped schema) →
      Fits maxPayload schema (batchesOf batchRows splits) →
      ∃ written groups, writeAll batchRows schema splits = .ok written ∧ written.refused = [] ∧
        (StreamReader.ofBytes written.bytes).readSchema.1 = .ok schema ∧
        (StreamReader.ofBytes written.bytes).readSchema.2.Gives groups.flatten (.ok none) ∧
        List.Forall₂ (fun s group => s.CutInto (max batchRows 1) schema group) splits groups) ∧
    ∀ s : Split, Fits maxPayload s.schema (batches s (max batchRows 1)) →
      ∃ t, decodeResults (encodeResults s batchRows) = .ok t ∧ s.SameArrays t := by
  refine ⟨fun schema splits hs hfit => ?_, fun s hfit => decodeResults_encodeResults hfit⟩
  have hw := StreamWriter.writeAll_eq batchRows schema splits
  rw [StreamWriter.taken_of_shaped hs] at hw
  refine ⟨_, splits.map fun s => (batches s (max batchRows 1)).map (·.delivered schema), hw, ?_, ?_, ?_, ?_⟩
  · simpa using hs
  · exact congrArg Prod.fst (StreamReader.readSchema_schemaFrame _ hfit.schema)
  · have hgives := StreamReader.gives_stream (fun _ => StreamWriter.batchesOf_shaped hs) hfit
    rw [← List.flatMap_def, ← List.map_flatMap]
    exact hgives.readSchema rfl
  · rw [List.forall₂_map_right_iff, List.forall₂_same]
    exact fun s _ => cutInto_batches (StreamWriter.max_one_pos batchRows)

section Signals

/-! Three rows that do not fill two batches. One holds a NaN of its own and one a key that is absent and yet
not null. -/

def signals : Split where
  schema := { columns := [⟨"x", .float64⟩, ⟨"név", .utf8⟩], keys := [⟨"__key0", .int64⟩] }
  rows :=
    [⟨[.float64 ⟨0x7ff8000000000123⟩, .text "ő"], [.int64 7], [false]⟩,
      ⟨[.null, .text ""], [.null], [true]⟩, ⟨[.float64 ⟨0⟩, .null], [.int64 1], [true]⟩]

theorem batches_signals : batches signals 2 =
    [{ signals with rows := signals.rows.take 2 }, { signals with rows := signals.rows.drop 2 }] := by
  simp [batches, signals, StreamWriter.chunks]

theorem fits_signals : Fits maxPayload signals.schema (batches signals 2) := by
  rw [batches_signals]
  decide +kernel

theorem stream_reads_back_signals :
    (∃ written groups, writeAll 2 signals.schema [signals] = .ok written ∧ written.refused = [] ∧
      (StreamReader.ofBytes written.bytes).readSchema.1 = .ok signals.schema ∧
      (StreamReader.ofBytes written.bytes).readSchema.2.Gives groups.flatten (.ok none) ∧
      List.Forall₂ (fun s group => s.CutInto 2 signals.schema group) [signals] groups) ∧
    ∃ t, decodeResults (encodeResults signals 2) = .ok t ∧ signals.SameArrays t :=
  ⟨(stream_reads_back 2).1 signals.schema [signals] (by simp [Split.Shaped])
      (by simpa [batchesOf] using fits_signals),
    (stream_reads_back 2).2 signals fits_signals⟩

end Signals
end QueryCluster
