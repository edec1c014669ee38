import QueryCluster.Operator.Emission
import QueryCluster.Proofs.Codec.Basic
import QueryCluster.Proofs.Split.Columns
import QueryCluster.Stream.Frame
import QueryCluster.Stream.Writer

/-!
# Frames read back

A reader takes exactly the frame in front of a source, whatever follows. A frame with a payload
beyond the limit is refused by its header alone.
-/
namespace QueryCluster

open Codec (lengthLimit)

namespace Source

theorem take_zero (s : Source) : take 0 s = .full [] s := by cases s <;> rfl

theorem take_append (front rest : Bytes) :
    take front.length (ofBytes (front ++ rest)) = .full front (ofBytes rest) := by
  cases front with
  | nil => exact take_zero _
  | cons b bs =>
    have hne : (b :: bs ++ rest).isEmpty = false := rfl
    rw [ofBytes, hne, List.length_cons]
    simp only [Bool.false_eq_true, if_false, take, hne]
    by_cases hr : rest = []
    · subst hr
      have hlen : ¬ bs.length + 1 < (b :: bs ++ []).length := by simp
      have hzero : bs.length + 1 - (b :: bs ++ []).length = 0 := by simp
      rw [if_neg hlen, hzero]
      simp [take, Taken.prepend, ofBytes]
    · have hpos := List.length_pos_iff.mpr hr
      have hlen : bs.length + 1 < (b :: bs ++ rest).length := by
        rw [List.length_append, List.length_cons]
        omega
      have hfront : (b :: bs ++ rest).take (bs.length + 1) = b :: bs := by simp
      have hrest : (b :: bs ++ rest).drop (bs.length + 1) = rest := by simp
      have hempty : rest.isEmpty = false := by simp [hr]
      rw [if_pos hlen, hfront, hrest, ofBytes, hempty]
      rfl

end Source

theorem Blake3.length_digest (bs : Bytes) : (Blake3.digest bs).length = 32 := by
  simp [Blake3.digest, Blake3.Pending.digest, Blake3.Quad.toList]

namespace Frame

theorem length_header (f : Frame) : f.header.length = headerLength := by
  simp [header, headerLength, Blake3.length_digest]

theorem length_encode (f : Frame) : f.encode.length = headerLength + f.payload.length := by
  rw [encode, List.length_append, length_header]

/-- A field of known place and width, cut out again. -/
theorem cut (front field back : Bytes) {n width : Nat} (hn : front.length = n)
    (hw : field.length = width) : ((front ++ (field ++ back)).drop n).take width = field := by
  subst hn hw
  rw [List.drop_left, List.take_left]

theorem header_read (f : Frame) (h : f.payload.length < lengthLimit) :
    Header.read f.header =
      if maxPayload < f.payload.length then .error (.payloadTooLong f.payload.length)
      else .ok ⟨f.kind, f.payload.length, Blake3.digest f.payload⟩ := by
  have hmagic : f.header.take 4 = Bytes.ofNatLE 4 magic := by
    rw [header, List.append_assoc, List.append_assoc, List.append_assoc]
    exact List.take_left' (Bytes.length_ofNatLE 4 magic)
  have hversion : (f.header.drop 4).take 2 = Bytes.ofNatLE 2 version := by
    rw [header, List.append_assoc, List.append_assoc, List.append_assoc]
    exact cut _ _ _ (Bytes.length_ofNatLE 4 magic) (Bytes.length_ofNatLE 2 version)
  have hcode : (f.header.drop 6).take 1 = [UInt8.ofNat f.kind.code] := by
    have hf : f.header = Bytes.ofNatLE 4 magic ++ Bytes.ofNatLE 2 version ++
        ([UInt8.ofNat f.kind.code] ++
          (0 :: (Bytes.ofNatLE 8 f.payload.length ++ Blake3.digest f.payload))) := by
      simp [header]
    rw [hf]
    exact cut _ _ _ (by simp) rfl
  have hlength : (f.header.drop 8).take 8 = Bytes.ofNatLE 8 f.payload.length := by
    rw [header, List.append_assoc]
    exact cut _ _ _ (by simp) (Bytes.length_ofNatLE 8 _)
  have hdigest : (f.header.drop 16).take 32 = Blake3.digest f.payload := by
    have hc := cut (f.header.take 16) (Blake3.digest f.payload) [] (n := 16) (by
      rw [List.length_take, length_header]; rfl) (Blake3.length_digest f.payload)
    have htake : f.header.take 16 ++ (Blake3.digest f.payload ++ []) = f.header := by
      rw [List.append_nil, header, List.take_left' (by simp)]
    rwa [htake] at hc
  have hkind : Bytes.toNatLE [UInt8.ofNat f.kind.code] = f.kind.code := by
    cases f.kind <;> rfl
  have hcount : f.payload.length % Bytes.capacity 8 = f.payload.length :=
    Nat.mod_eq_of_lt (Codec.capacity_eight ▸ h)
  have hm : magic % Bytes.capacity 4 = magic := by decide
  have hv : version % Bytes.capacity 2 = version := by decide
  simp only [Header.read, hmagic, hversion, hcode, hlength, hdigest, hm, hv, hkind,
    Bytes.toNatLE_ofNatLE, hcount, FrameKind.ofCode?_code, ne_eq, not_true, or_self, if_false]

theorem read_encode (f : Frame) (h : f.payload.length ≤ maxPayload) (rest : Bytes) :
    read (Source.ofBytes (f.encode ++ rest)) = (.ok (some f), Source.ofBytes rest) := by
  have hsmall : f.payload.length < lengthLimit := Nat.lt_of_le_of_lt h (by decide)
  have ht := Source.take_append f.header (f.payload ++ rest)
  rw [length_header, ← List.append_assoc] at ht
  rw [read, encode, ht]
  have hr := f.header_read hsmall
  rw [if_neg (Nat.not_lt.mpr h)] at hr
  have hne : f.header ≠ [] := by
    intro he
    have := f.length_header
    rw [he] at this
    exact absurd this (by decide)
  simp only [hr, readPayload, Source.take_append, if_true]

/-- A header that announces too much is refused, whatever stands behind it. -/
theorem read_header_tooLong (f : Frame) (h : maxPayload < f.payload.length)
    (hsmall : f.payload.length < lengthLimit) (rest : Bytes) :
    read (Source.ofBytes (f.header ++ rest)) =
      (.error (.protocol (.payloadTooLong f.payload.length)), Source.ofBytes rest) := by
  have ht := Source.take_append f.header rest
  rw [length_header] at ht
  have hr := f.header_read hsmall
  rw [if_pos h] at hr
  rw [read, ht]
  simp only [hr]

theorem read_encode_tooLong (f : Frame) (h : maxPayload < f.payload.length)
    (hsmall : f.payload.length < lengthLimit) (rest : Bytes) :
    read (Source.ofBytes (f.encode ++ rest)) =
      (.error (.protocol (.payloadTooLong f.payload.length)),
        Source.ofBytes (f.payload ++ rest)) := by
  rw [encode, List.append_assoc]
  exact read_header_tooLong f h hsmall (f.payload ++ rest)

end Frame

/-!
## Streams read back

What a writer puts into a stream is what a reader takes out of it, frame by frame: the schema and then the
batches, without their directions. Batches are the rows of the written splits in order, so no cut
into batches loses or reorders a row. A frame beyond the payload limit shows as a fault.
-/

/-- A split under a schema that every row of it fits. -/
structure Split.Under (schema : Schema) (s : Split) : Prop where
  schema_eq : s.schema = schema
  wellFormed : s.WellFormed

/-- What a batch keeps of a split. -/
def Split.undirected (s : Split) : Split := { s with orders := [] }

theorem Split.Under.shaped {schema : Schema} {s : Split} (h : s.Under schema) : s.Shaped schema :=
  h.schema_eq ▸ ⟨rfl, rfl⟩

theorem Split.Under.delivered {schema : Schema} {s : Split} (h : s.Under schema)
    (hc : schema.Counts) : s.delivered schema = s.undirected := by
  obtain ⟨rfl, hw⟩ := h
  have hrows : s.rows.map (·.squared s.schema) = s.rows :=
    (List.map_congr_left fun r hr => Row.squared_of_fits (hw r hr)).trans (List.map_id' _)
  rw [Split.delivered, if_pos hc, hrows]
  rfl

/-- The rows of many splits. -/
def rowsOf (splits : List Split) : List Row := splits.flatMap (·.rows)

@[simp] theorem rowsOf_nil : rowsOf [] = [] := rfl

@[simp] theorem rowsOf_cons (s : Split) (splits : List Split) :
    rowsOf (s :: splits) = s.rows ++ rowsOf splits := rfl

@[simp] theorem rowsOf_append (xs ys : List Split) : rowsOf (xs ++ ys) = rowsOf xs ++ rowsOf ys := by
  simp [rowsOf]

theorem rowsOf_undirected (splits : List Split) :
    rowsOf (splits.map Split.undirected) = rowsOf splits := by
  simp [rowsOf, List.flatMap_map, Split.undirected]

theorem length_rowsOf (splits : List Split) : (rowsOf splits).length = countRows splits := by
  induction splits with
  | nil => rfl
  | cons s splits ih => simp [countRows, Split.rowCount, ih]

namespace StreamWriter

/-- A complete stream of batches. -/
def stream (schema : Schema) (batches : List Split) : Bytes :=
  schemaFrame schema ++ (batches.flatMap batchFrame ++ endFrame)

/-- The payload of a batch frame. -/
def payload (s : Split) : Bytes := (Batch.ofSplit s).encode

/-- Every frame of a stream fits the limit. -/
structure Fits (limit : Nat) (schema : Schema) (batches : List Split) : Prop where
  schema : schema.encode.length ≤ limit
  batches : ∀ s ∈ batches, (payload s).length ≤ limit

instance {limit : Nat} {schema : Schema} {batches : List Split} :
    Decidable (Fits limit schema batches) :=
  decidable_of_iff (schema.encode.length ≤ limit ∧ ∀ s ∈ batches, (payload s).length ≤ limit)
    ⟨fun h => ⟨h.1, h.2⟩, fun h => ⟨h.1, h.2⟩⟩

/-- The length of a frame below the limit is one that its header can hold. -/
theorem Fits.lt_lengthLimit {schema : Schema} {batches : List Split}
    (h : Fits (lengthLimit - 1) schema batches) :
    schema.encode.length < lengthLimit ∧ ∀ s ∈ batches, (payload s).length < lengthLimit :=
  have hlimit : 0 < lengthLimit := by decide
  ⟨Nat.lt_of_le_pred hlimit h.schema, fun s hs => Nat.lt_of_le_pred hlimit (h.batches s hs)⟩

theorem chunks_flatten {α : Type} {n : Nat} (hn : 0 < n) (as : List α) :
    (chunks n as).flatten = as := by
  fun_induction chunks n as with
  | case1 as h =>
    have : as = [] := by
      rcases h with h | h
      · exact List.length_eq_zero_iff.mp h
      · omega
    simp [this]
  | case2 as h ih => rw [List.flatten_cons, ih, List.take_append_drop]

theorem length_of_mem_chunks {α : Type} {n : Nat} {as c : List α} (h : c ∈ chunks n as) :
    0 < c.length ∧ c.length ≤ n := by
  fun_induction chunks n as with
  | case1 as _ => cases h
  | case2 as hne ih =>
    rcases List.mem_cons.mp h with rfl | h
    · rw [List.length_take]
      omega
    · exact ih h

variable {schema : Schema}

theorem rowsOf_batches (s : Split) {n : Nat} (hn : 0 < n) : rowsOf (batches s n) = s.rows := by
  have h := chunks_flatten hn s.rows
  simpa only [rowsOf, batches, List.flatMap_map, List.flatMap_id'] using h

theorem batches_under {s b : Split} {n : Nat} (hs : s.Under schema) (hn : 0 < n)
    (h : b ∈ batches s n) : b.Under schema := by
  obtain ⟨rows, hc, rfl⟩ := List.mem_map.mp h
  refine ⟨hs.schema_eq, fun r hr => hs.wellFormed r ?_⟩
  rw [← chunks_flatten hn s.rows]
  exact List.mem_flatten_of_mem hc hr

theorem rowCount_batches {s b : Split} {n : Nat} (h : b ∈ batches s n) :
    0 < b.rowCount ∧ b.rowCount ≤ n := by
  obtain ⟨rows, hc, rfl⟩ := List.mem_map.mp h
  exact length_of_mem_chunks hc

/-- Few enough rows make one batch. -/
theorem batches_of_le {s : Split} {n : Nat} (hs : 0 < s.rowCount) (hn : s.rowCount ≤ n) :
    batches s n = [s] := by
  have hs : 0 < s.rows.length := hs
  have hn : s.rows.length ≤ n := hn
  rw [batches, chunks, if_neg (by omega), List.take_of_length_le hn, List.drop_of_length_le hn,
    chunks, if_pos (.inl rfl)]
  rfl

end StreamWriter

namespace StreamReader

open StreamWriter (stream payload schemaFrame batchFrame endFrame Fits)

variable {schema : Schema}

theorem readBatch_payload {s : Split} (hs : s.Shaped schema)
    (hl : (payload s).length < lengthLimit) :
    readBatch schema (payload s) = .ok (s.delivered schema) := by
  rw [readBatch, payload, (Batch.faithful.reads _ hl).decode?]
  show (Batch.toSplit (Batch.ofSplit s) schema).mapError SplitError.shape = _
  rw [Split.toSplit_ofSplit hs]
  rfl

theorem nextBatch_batchFrame (r : StreamReader) {s : Split} (hs : s.Shaped schema)
    (hl : (payload s).length ≤ maxPayload) {rest : Bytes}
    (hr : r.source = Source.ofBytes (batchFrame s ++ rest)) :
    r.nextBatch schema =
      (.ok (some (s.delivered schema)), { r with source := Source.ofBytes rest }) := by
  have hread := Frame.read_encode ⟨.batch, payload s⟩ hl rest
  have hbatch := readBatch_payload hs (Nat.lt_of_le_of_lt hl (by decide))
  rw [nextBatch, hr, batchFrame, ← payload, hread]
  simp only [hbatch]
  rfl

theorem nextBatch_endFrame (r : StreamReader) {rest : Bytes}
    (hr : r.source = Source.ofBytes (endFrame ++ rest)) :
    r.nextBatch schema = (.ok none, { r with source := Source.ofBytes rest, done := true }) := by
  have hread := Frame.read_encode ⟨.finish, []⟩ (Nat.zero_le _) rest
  rw [nextBatch, hr, endFrame, hread]

theorem nextBatch_tooLong (schema : Schema) (r : StreamReader) {s : Split}
    (hl : maxPayload < (payload s).length) (hsmall : (payload s).length < lengthLimit) {rest : Bytes}
    (hr : r.source = Source.ofBytes (batchFrame s ++ rest)) :
    r.nextBatch schema = (.error (.protocol (.payloadTooLong (payload s).length)),
      { r with source := Source.ofBytes (payload s ++ rest) }) := by
  have hread := Frame.read_encode_tooLong ⟨.batch, payload s⟩ hl hsmall rest
  rw [nextBatch, hr, batchFrame, ← payload, hread]

theorem readSplit_of_schema {r : StreamReader} (hd : r.done = false)
    (hs : r.schema = some schema) : r.readSplit = r.nextBatch schema := by
  simp [readSplit, hd, readSchema, hs]

theorem readSchema_schemaFrame (rest : Bytes) (h : schema.encode.length ≤ maxPayload) :
    (ofBytes (schemaFrame schema ++ rest)).readSchema =
      (.ok schema, { source := Source.ofBytes rest, schema := some schema }) := by
  have hread := Frame.read_encode ⟨.metadata, schema.encode⟩ h rest
  have hd := (Schema.faithful.reads schema (Nat.lt_of_le_of_lt h (by decide))).decode?
  rw [readSchema, ofBytes]
  simp only [schemaFrame, hread, hd]

theorem readSchema_tooLong (rest : Bytes) (h : maxPayload < schema.encode.length)
    (hsmall : schema.encode.length < lengthLimit) :
    (ofBytes (schemaFrame schema ++ rest)).readSchema =
      (.error (.protocol (.payloadTooLong schema.encode.length)),
        { source := Source.ofBytes (schema.encode ++ rest) }) := by
  have hread := Frame.read_encode_tooLong ⟨.metadata, schema.encode⟩ h hsmall rest
  rw [readSchema, ofBytes]
  simp only [schemaFrame, hread]

/-- A stream has more bytes than batches. -/
theorem length_le_source (batches : List Split) :
    batches.length < (Source.ofBytes (batches.flatMap batchFrame ++ endFrame)).size + 2 := by
  have hb : batches.length ≤ (batches.flatMap batchFrame).length := by
    induction batches with
    | nil => simp
    | cons s batches ih =>
      have hframe : 0 < (batchFrame s).length := by
        rw [batchFrame, Frame.length_encode, Frame.headerLength]
        omega
      rw [List.flatMap_cons, List.length_append, List.length_cons]
      omega
  rw [Source.ofBytes]
  split
  · rename_i he
    have := List.length_eq_zero_iff.mpr (List.isEmpty_iff.mp he)
    rw [List.length_append] at this
    omega
  · simp only [Source.size, List.length_append]
    omega

end StreamReader
end QueryCluster
