import QueryCluster.Proofs.Stream.Altered
import QueryCluster.Proofs.Stream.Deliveries

/-!
# Streams with one byte changed

A reader of such a stream hands out no batch that was not written, and before it reports the end it has
handed out all of them. One byte is not safe: the kind of a batch frame, which is under no checksum. Where
it says that the stream ends, the reader believes it, and the batches from there on are lost.
-/
namespace QueryCluster

open Codec (lengthLimit)

namespace Frame

/-- In the place of a frame no other payload of its digest is found. -/
def Distinguished : List Frame → Bytes → Prop
  | [], _ => True
  | f :: frames, bs =>
    (∀ p ∈ announced? bs, p ≠ f.payload → Blake3.digest p ≠ Blake3.digest f.payload) ∧
      Distinguished frames (bs.drop f.encode.length)

instance decidableDistinguished : ∀ frames bs, Decidable (Distinguished frames bs)
  | [], _ => .isTrue trivial
  | f :: frames, bs =>
    have := decidableDistinguished frames (bs.drop f.encode.length)
    inferInstanceAs (Decidable (_ ∧ _))

end Frame

namespace StreamWriter

/-- The frames of a stream behind its schema. -/
def laterFrames (batches : List Split) : List Frame :=
  batches.map (fun s => ⟨.batch, payload s⟩) ++ [⟨.finish, []⟩]

def frames (schema : Schema) (batches : List Split) : List Frame :=
  ⟨.metadata, schema.encode⟩ :: laterFrames batches

end StreamWriter

namespace StreamReader

open StreamWriter (stream payload schemaFrame batchFrame endFrame Fits Written writeAll batchesOf taken
  rowsOf_batchesOf)

/-- Batches come out of a reader, and behind them the end of the stream or a fault. -/
inductive ReadsTo : StreamReader → List Split → Except SplitError Unit → Prop
  | ended {r r' : StreamReader} (h : r.readSplit = (.ok none, r')) : ReadsTo r [] (.ok ())
  | failed {r r' : StreamReader} {e : SplitError} (h : r.readSplit = (.error e, r')) : ReadsTo r [] (.error e)
  | batch {r r' : StreamReader} {s : Split} (h : r.readSplit = (.ok (some s), r')) {splits : List Split}
      {last : Except SplitError Unit} (hrest : ReadsTo r' splits last) : ReadsTo r (s :: splits) last

variable {schema : Schema} {r r' : StreamReader} {splits batches : List Split} {last : Except SplitError Unit}

theorem ReadsTo.congr (h : r.ReadsTo splits last) (hsame : r.readSplit = r'.readSplit) :
    r'.ReadsTo splits last := by
  cases h with
  | ended h => exact .ended (hsame ▸ h)
  | failed h => exact .failed (hsame ▸ h)
  | batch h hrest => exact .batch (hsame ▸ h) hrest

/-- The rest of a stream as one split is what its batches come to. -/
theorem ReadsTo.readRest (h : r.ReadsTo splits last) {all : Split} (hs : ∀ s ∈ splits, s.Shaped all.schema)
    {fuel : Nat} (hfuel : r.source.size < fuel) :
    (readRest fuel r all).1 = last.map fun _ => { all with rows := all.rows ++ rowsOf splits } := by
  induction h generalizing all fuel with
  | ended h =>
    obtain ⟨fuel, rfl⟩ := Nat.exists_eq_succ_of_ne_zero (Nat.ne_of_gt (Nat.zero_lt_of_lt hfuel))
    simp [StreamReader.readRest, h, Except.map]
  | failed h =>
    obtain ⟨fuel, rfl⟩ := Nat.exists_eq_succ_of_ne_zero (Nat.ne_of_gt (Nat.zero_lt_of_lt hfuel))
    simp [StreamReader.readRest, h, Except.map]
  | @batch r r' s h splits last hrest ih =>
    obtain ⟨fuel, rfl⟩ := Nat.exists_eq_succ_of_ne_zero (Nat.ne_of_gt (Nat.zero_lt_of_lt hfuel))
    obtain ⟨hs, hsrest⟩ := List.forall_mem_cons.mp hs
    have hless := size_readSplit h
    have hnext : (StreamReader.readRest fuel r' { all with rows := all.rows ++ s.rows }).1 = _ :=
      @ih { all with rows := all.rows ++ s.rows } hsrest fuel (by omega)
    simp only [StreamReader.readRest, h, Split.append_of_shaped hs, hnext, rowsOf_cons, List.append_assoc]

/-- Nothing but the written batches comes out in front of the last answer. An end in front of the end is a
batch whose kind was changed to that of an end. -/
structure Spared (schema : Schema) (batches : List Split) (i : Nat) (b : UInt8) (delivered : List Split)
    (last : Except SplitError Unit) : Prop where
  written : delivered <+: batches.map (·.delivered schema)
  ended : last = .ok () → delivered = batches.map (·.delivered schema) ∨
    b = 3 ∧ ∃ front s back, batches = front ++ s :: back ∧ i = (front.flatMap batchFrame).length + 6 ∧
      delivered = front.map (·.delivered schema)

theorem Spared.failed (i : Nat) (b : UInt8) (e : SplitError) : Spared schema batches i b [] (.error e) :=
  ⟨List.nil_prefix, nofun⟩

theorem kind_inside (front : List Split) (s : Split) (back : List Split) :
    (front.flatMap batchFrame).length + 6 < ((front ++ s :: back).flatMap batchFrame ++ endFrame).length := by
  have hframe : 6 < (batchFrame s).length := by
    rw [batchFrame, Frame.length_encode, Frame.headerLength]
    omega
  simp only [List.flatMap_append, List.flatMap_cons, List.length_append]
  omega

/-- The change is in what is behind a batch, or it is not there at all. -/
theorem Spared.cons {i j : Nat} {b : UInt8} {delivered : List Split} {s : Split}
    (hj : i = (batchFrame s).length + j ∨ (batches.flatMap batchFrame ++ endFrame).length ≤ j)
    (h : Spared schema batches j b delivered last) :
    Spared schema (s :: batches) i b (s.delivered schema :: delivered) last where
  written := (List.prefix_cons_inj _).mpr h.written
  ended hlast := by
    refine (h.ended hlast).imp (congrArg _) ?_
    rintro ⟨hb, front, t, back, rfl, rfl, rfl⟩
    obtain rfl := hj.resolve_right (Nat.not_le.mpr (kind_inside front t back))
    exact ⟨hb, s :: front, t, back, rfl, by simp [Nat.add_assoc], rfl⟩

theorem readSplit_behind (schema : Schema) (bs : Bytes) :
    (behind schema bs).readSplit = (behind schema bs).nextBatch schema := readSplit_of_schema rfl rfl

theorem failed_or_read (schema : Schema) (bs : Bytes) : (∃ e, (behind schema bs).ReadsTo [] (.error e)) ∨
    ∃ g rest, Frame.read (Source.ofBytes bs) = (.ok (some g), rest) ∧ g.kind ≠ .metadata := by
  rcases hread : Frame.read (Source.ofBytes bs) with ⟨e | _ | ⟨_ | _ | _, p⟩, rest⟩
  · exact .inl ⟨e, .failed (by rw [readSplit_behind, nextBatch, behind, hread])⟩
  · exact .inl ⟨_, .failed (by rw [readSplit_behind, nextBatch, behind, hread])⟩
  · exact .inl ⟨_, .failed (by rw [readSplit_behind, nextBatch, behind, hread])⟩
  · exact .inr ⟨_, rest, rfl, fun h => by cases h⟩
  · exact .inr ⟨_, rest, rfl, fun h => by cases h⟩

theorem batch_of_read {bs tail : Bytes} {s : Split} (hs : s.Shaped schema)
    (hsmall : (payload s).length < lengthLimit)
    (hread : Frame.read (Source.ofBytes bs) = (.ok (some ⟨.batch, payload s⟩), Source.ofBytes tail))
    (hrest : (behind schema tail).ReadsTo splits last) :
    (behind schema bs).ReadsTo (s.delivered schema :: splits) last := by
  refine .batch ?_ hrest
  rw [readSplit_behind, nextBatch, behind, hread]
  simp only [readBatch_payload hs hsmall]
  rfl

theorem readSplit_of_end {bs p : Bytes} {rest : Source}
    (hread : Frame.read (Source.ofBytes bs) = (.ok (some ⟨.finish, p⟩), rest)) :
    (behind schema bs).readSplit = (.ok none, { behind schema bs with source := rest, done := true }) := by
  rw [readSplit_behind, nextBatch, behind, hread]

/-- Behind a frame either all bytes are as they were written, or the changed one is among them. -/
theorem drop_set_append (front back : Bytes) (i : Nat) (b : UInt8) :
    ∃ j, ((front ++ back).set i b).drop front.length = back.set j b ∧
      (i = front.length + j ∨ back.length ≤ j) := by
  by_cases hi : i < front.length
  · refine ⟨back.length, ?_, .inr (Nat.le_refl _)⟩
    rw [List.drop_set, if_pos hi, List.drop_left, List.set_eq_of_length_le (Nat.le_refl _)]
  · obtain ⟨j, rfl⟩ := Nat.exists_eq_add_of_le (Nat.not_lt.mp hi)
    refine ⟨j, ?_, .inl rfl⟩
    rw [List.drop_set, if_neg hi, List.drop_left, Nat.add_sub_cancel_left]

theorem readsTo_altered (hs : ∀ s ∈ batches, s.Shaped schema)
    (hsmall : ∀ s ∈ batches, (payload s).length < lengthLimit) (i : Nat) (b : UInt8)
    (hdigest : Frame.Distinguished (StreamWriter.laterFrames batches)
      ((batches.flatMap batchFrame ++ endFrame).set i b)) :
    ∃ delivered last,
      (behind schema ((batches.flatMap batchFrame ++ endFrame).set i b)).ReadsTo delivered last ∧
      Spared schema batches i b delivered last := by
  induction batches generalizing i with
  | nil =>
    have hend : ([].flatMap batchFrame ++ endFrame) = Frame.encode ⟨.finish, []⟩ ++ [] :=
      (List.append_nil _).symm
    rw [hend] at hdigest ⊢
    rcases failed_or_read schema ((Frame.encode ⟨.finish, []⟩ ++ []).set i b) with
      ⟨e, hfailed⟩ | ⟨⟨kind, p⟩, rest, hread, hkind⟩
    · exact ⟨[], _, hfailed, .failed i b e⟩
    cases kind with
    | metadata => exact absurd rfl hkind
    | finish => exact ⟨[], _, ReadsTo.ended (readSplit_of_end hread), List.nil_prefix, fun _ => .inl rfl⟩
    | batch =>
      -- no batch is encoded in no bytes
      obtain ⟨rfl, rfl, _⟩ := Frame.eq_of_read_altered (by decide) hdigest.1 hread
      have hsplit := readSplit_behind schema ((Frame.encode ⟨.finish, []⟩ ++ []).set i b)
      rw [nextBatch, behind, hread] at hsplit
      exact ⟨[], _, .failed (e := .codec) hsplit, .failed i b .codec⟩
  | cons s batches ih =>
    obtain ⟨hs, hsrest⟩ := List.forall_mem_cons.mp hs
    obtain ⟨hsmall, hsmallrest⟩ := List.forall_mem_cons.mp hsmall
    obtain ⟨hdigest, hrest⟩ : _ ∧ Frame.Distinguished (StreamWriter.laterFrames batches)
      (List.drop (batchFrame s).length _) := hdigest
    rw [List.flatMap_cons, List.append_assoc] at hdigest hrest ⊢
    rcases failed_or_read schema ((batchFrame s ++ (batches.flatMap batchFrame ++ endFrame)).set i b) with
      ⟨e, hfailed⟩ | ⟨⟨kind, p⟩, rest, hread, hkind⟩
    · exact ⟨[], _, hfailed, .failed i b e⟩
    obtain ⟨rfl, rfl, hsame⟩ := Frame.eq_of_read_altered (f := ⟨.batch, payload s⟩) hsmall hdigest hread
    cases kind with
    | metadata => exact absurd rfl hkind
    | finish =>
      obtain ⟨rfl, rfl⟩ := hsame.resolve_left fun h => by cases h
      exact ⟨[], _, ReadsTo.ended (readSplit_of_end hread), List.nil_prefix,
        fun _ => .inr ⟨rfl, [], s, batches, rfl, rfl, rfl⟩⟩
    | batch =>
      obtain ⟨j, hbehind, hj⟩ := drop_set_append (batchFrame s) (batches.flatMap batchFrame ++ endFrame) i b
      rw [hbehind] at hrest
      obtain ⟨delivered, last, hreads, hspared⟩ := ih hsrest hsmallrest j hrest
      rw [← hbehind] at hreads
      exact ⟨_, last, batch_of_read hs hsmall hread hreads, hspared.cons hj⟩

/-- A schema that is read is the one that was written, and what is behind it follows. -/
theorem readSchema_altered (hsmall : schema.encode.length < lengthLimit) {tail : Bytes} {i : Nat} {b : UInt8}
    (hdigest : ∀ p ∈ Frame.announced? ((schemaFrame schema ++ tail).set i b), p ≠ schema.encode →
      Blake3.digest p ≠ Blake3.digest schema.encode) :
    (∃ e r', (ofBytes ((schemaFrame schema ++ tail).set i b)).readSchema = (.error e, r')) ∨
      (ofBytes ((schemaFrame schema ++ tail).set i b)).readSchema = (.ok schema,
        behind schema (((schemaFrame schema ++ tail).set i b).drop (schemaFrame schema).length)) := by
  rcases hread : Frame.read (Source.ofBytes ((schemaFrame schema ++ tail).set i b)) with
    ⟨e | _ | ⟨kind, p⟩, rest⟩
  · exact .inl ⟨e, _, by rw [readSchema, ofBytes, hread]⟩
  · exact .inl ⟨_, _, by rw [readSchema, ofBytes, hread]⟩
  obtain ⟨rfl, rfl, _⟩ := Frame.eq_of_read_altered (f := ⟨.metadata, schema.encode⟩) hsmall hdigest hread
  cases kind with
  | metadata =>
    have hdecode := (Schema.faithful.reads schema hsmall).decode?
    refine .inr ?_
    rw [readSchema, ofBytes, hread]
    simp only [hdecode]
    rfl
  | batch => exact .inl ⟨_, _, by rw [readSchema, ofBytes, hread]⟩
  | finish => exact .inl ⟨_, _, by rw [readSchema, ofBytes, hread]⟩

theorem readsTo_altered_stream (hs : ∀ s ∈ batches, s.Shaped schema)
    (hsmall : Fits (lengthLimit - 1) schema batches) (i : Nat) (b : UInt8)
    (hdigest : Frame.Distinguished (StreamWriter.frames schema batches) ((stream schema batches).set i b)) :
    ∃ delivered last, (ofBytes ((stream schema batches).set i b)).ReadsTo delivered last ∧
      (ofBytes ((stream schema batches).set i b)).readAll.1 =
        last.map (fun _ => { schema, rows := rowsOf delivered }) ∧
      ∃ j, (i = (schemaFrame schema).length + j ∨ (batches.flatMap batchFrame ++ endFrame).length ≤ j) ∧
        Spared schema batches j b delivered last := by
  obtain ⟨hschema, hbatches⟩ := hsmall.lt_lengthLimit
  obtain ⟨hfirst, hrest⟩ : _ ∧ Frame.Distinguished (StreamWriter.laterFrames batches)
    (List.drop (schemaFrame schema).length _) := hdigest
  rw [stream] at hfirst hrest ⊢
  obtain ⟨j, hbehind, hj⟩ := drop_set_append (schemaFrame schema) (batches.flatMap batchFrame ++ endFrame) i b
  rcases readSchema_altered hschema hfirst with ⟨e, r', hread⟩ | hread
  · refine ⟨[], .error e, .failed (readSplit_of_readSchema rfl hread), ?_, j, hj, .failed j b e⟩
    rw [readAll, hread]
    rfl
  · rw [hbehind] at hread hrest
    obtain ⟨delivered, last, hreads, hspared⟩ := readsTo_altered hs hbatches j b hrest
    refine ⟨delivered, last, hreads.congr ?_, ?_, j, hj, hspared⟩
    · rw [readSplit_of_schema rfl rfl, readSplit, if_neg (by simp [ofBytes]), hread]
    · have hshaped : ∀ s ∈ delivered, s.Shaped schema := fun s h => by
        obtain ⟨t, _, rfl⟩ := List.mem_map.mp (hspared.written.subset h)
        exact t.shaped_delivered schema
      rw [readAll, hread]
      exact @ReadsTo.readRest _ _ _ hreads { schema } hshaped _ (Nat.lt_add_of_pos_right Nat.two_pos)

/-! ## Rows -/

theorem rowsOf_prefix {front : List Split} (h : front <+: batches) : rowsOf front <+: rowsOf batches := by
  obtain ⟨back, rfl⟩ := h
  rw [rowsOf_append]
  exact List.prefix_append _ _

theorem fits_of_taken (hwell : ∀ s ∈ splits, s.WellFormed) :
    ∀ r ∈ rowsOf (taken schema splits), r.Fits schema := by
  intro r hr
  obtain ⟨s, hs, hr⟩ := List.mem_flatMap.mp hr
  obtain ⟨hcolumns, hkeys⟩ := StreamWriter.shaped_of_mem_taken hs
  have hfits := hwell s (List.mem_filter.mp hs).1 r hr
  rwa [Row.Fits, hcolumns, hkeys] at hfits

/-- A changed byte shows as a fault, or all rows arrive as they were written. In any case no other rows arrive.
The kind of a batch frame is the exception: where it is made the kind of an end frame, the rows in front of
that batch arrive and then the end. -/
theorem altered_byte_shows {batchRows : Nat} {written : Written} (hcounts : schema.Counts)
    (hwell : ∀ s ∈ splits, s.WellFormed) (hw : writeAll batchRows schema splits = .ok written)
    (hsmall : Fits (lengthLimit - 1) schema (batchesOf batchRows (taken schema splits))) (i : Nat) (b : UInt8)
    (hdigest : Frame.Distinguished (StreamWriter.frames schema (batchesOf batchRows (taken schema splits)))
      (written.bytes.set i b)) :
    ∃ delivered last, (ofBytes (written.bytes.set i b)).ReadsTo delivered last ∧
      (ofBytes (written.bytes.set i b)).readAll.1 = last.map (fun _ => { schema, rows := rowsOf delivered }) ∧
      decodeResults (Text.Base64.encode (written.bytes.set i b)) =
        (last.map fun _ => { schema, rows := rowsOf delivered }).mapError (fun e => .payload (.split e)) ∧
      rowsOf delivered <+: rowsOf (taken schema splits) ∧
      (last = .ok () → rowsOf delivered = rowsOf (taken schema splits) ∨
        b = 3 ∧ ∃ front s back, batchesOf batchRows (taken schema splits) = front ++ s :: back ∧
          i = (schemaFrame schema).length + (front.flatMap batchFrame).length + 6 ∧
          rowsOf delivered = rowsOf front) := by
  rw [StreamWriter.writeAll_eq] at hw
  cases hw
  have hs : ∀ s ∈ batchesOf batchRows (taken schema splits), s.Shaped schema := fun s =>
    StreamWriter.batchesOf_shaped fun _ => StreamWriter.shaped_of_mem_taken
  have hrows := rowsOf_batchesOf batchRows (taken schema splits)
  have hfits := @fits_of_taken schema splits hwell
  rw [← hrows] at hfits ⊢
  obtain ⟨delivered, last, hreads, hall, j, hj, hwritten, hended⟩ :=
    readsTo_altered_stream hs hsmall i b hdigest
  refine ⟨delivered, last, hreads, hall, ?_, ?_, fun hlast => ?_⟩
  · rw [decodeResults, Text.Base64.decode?_encode]
    exact congrArg (Except.mapError _) hall
  · rw [← rowsOf_delivered hcounts hfits]
    exact rowsOf_prefix hwritten
  · rcases hended hlast with rfl | ⟨hb, front, s, back, hbatches, rfl, rfl⟩
    · exact .inl (rowsOf_delivered hcounts hfits)
    · refine .inr ⟨hb, front, s, back, hbatches, ?_, rowsOf_delivered hcounts fun r hr => hfits r ?_⟩
      · rw [hbatches] at hj
        rw [hj.resolve_right (Nat.not_le.mpr (kind_inside front s back)), Nat.add_assoc]
      · rw [hbatches, rowsOf_append]
        exact List.mem_append_left _ hr

/-! ## The byte that is not safe -/

theorem encode_set_kind (f : Frame) (kind : FrameKind) (tail : Bytes) :
    (f.encode ++ tail).set 6 (UInt8.ofNat kind.code) = Frame.encode ⟨kind, f.payload⟩ ++ tail := by
  simp [Frame.encode, Frame.header]

/-- A batch that is said to be the end is taken for it, whatever its payload. -/
theorem gives_forged_end {front back : List Split} {s : Split}
    (hs : ∀ t ∈ front ++ s :: back, t.Shaped schema) (hfit : Fits maxPayload schema (front ++ s :: back)) :
    (ofBytes ((stream schema (front ++ s :: back)).set
      ((schemaFrame schema).length + (front.flatMap batchFrame).length + 6) 3)).Gives
        (front.map (·.delivered schema)) (.ok none) := by
  have hstream : stream schema (front ++ s :: back) = schemaFrame schema ++ (front.flatMap batchFrame ++
      (batchFrame s ++ (back.flatMap batchFrame ++ endFrame))) := by
    simp [stream, List.append_assoc]
  have hset (front back : Bytes) (i : Nat) (b : UInt8) :
      (front ++ back).set (front.length + i) b = front ++ back.set i b := by
    rw [List.set_append_right _ _ (Nat.le_add_right _ _), Nat.add_sub_cancel_left]
  have hforged : (batchFrame s ++ (back.flatMap batchFrame ++ endFrame)).set 6 3 =
      Frame.encode ⟨.finish, payload s⟩ ++ (back.flatMap batchFrame ++ endFrame) :=
    encode_set_kind ⟨.batch, payload s⟩ .finish _
  rw [hstream, Nat.add_assoc, hset, hset, hforged]
  obtain ⟨hsfront, _⟩ := List.forall_mem_append.mp hs
  obtain ⟨hfront, hfitted⟩ := List.forall_mem_append.mp hfit.batches
  have hread := Frame.read_encode ⟨.finish, payload s⟩ (List.forall_mem_cons.mp hfitted).1
    (back.flatMap batchFrame ++ endFrame)
  have hend := gives_nil_of_next (@readSplit_of_end schema _ _ _ hread) (gives_of_done rfl)
  have hgives := gives_batches hsfront hfront hend
  rw [List.append_nil] at hgives
  exact fun n => answers_congr (readSplit_schemaFrame hfit.schema _) _ ▸ hgives n

theorem not_altered_byte_shows : ∃ written old,
    writeAll 1 readings.schema [readings, widened] = .ok written ∧ written.bytes[171]? = some old ∧ old ≠ 3 ∧
    Frame.Distinguished
      (StreamWriter.frames readings.schema (batchesOf 1 (taken readings.schema [readings, widened])))
      (written.bytes.set 171 3) ∧
    rowsOf (taken readings.schema [readings, widened]) = readings.rows ∧
    (ofBytes (written.bytes.set 171 3)).readAll.1 =
      .ok { schema := readings.schema, rows := readings.rows.take 1 } ∧
    readings.rows.take 1 ≠ readings.rows := by
  have hw := StreamWriter.writeAll_eq 1 readings.schema [readings, widened]
  refine ⟨_, 2, hw, ?_⟩
  have hrows := rowsOf_batchesOf 1 (taken readings.schema [readings, widened])
  rw [← hrows]
  simp only [batches_readings]
  exact ⟨by decide +kernel, by decide, by decide +kernel, by decide, by decide +kernel, by decide⟩

/-- One value of the second batch is changed, and with it the checksum that its payload would need. -/
theorem altered_byte_shows_readings : ∃ written delivered last,
    writeAll 1 readings.schema [readings, widened] = .ok written ∧
    Frame.Distinguished
      (StreamWriter.frames readings.schema (batchesOf 1 (taken readings.schema [readings, widened])))
      (written.bytes.set 233 99) ∧
    (ofBytes (written.bytes.set 233 99)).ReadsTo delivered last ∧
    rowsOf delivered <+: rowsOf (taken readings.schema [readings, widened]) ∧
    (last = .ok () → rowsOf delivered = rowsOf (taken readings.schema [readings, widened])) := by
  have hw := StreamWriter.writeAll_eq 1 readings.schema [readings, widened]
  have hcounts : readings.schema.Counts := by decide
  have hwell : ∀ s ∈ [readings, widened], s.WellFormed := by
    simp [Split.WellFormed, Row.Fits, readings, widened]
  have hsmall : Fits (lengthLimit - 1) readings.schema
      (batchesOf 1 (taken readings.schema [readings, widened])) :=
    ⟨Nat.le_trans fits_readings.schema (by decide),
      fun s h => Nat.le_trans (fits_readings.batches s h) (by decide)⟩
  have hdigest : Frame.Distinguished
      (StreamWriter.frames readings.schema (batchesOf 1 (taken readings.schema [readings, widened])))
      ((stream readings.schema (batchesOf 1 (taken readings.schema [readings, widened]))).set 233 99) := by
    rw [batches_readings]
    decide +kernel
  obtain ⟨delivered, last, hreads, _, _, hpre, hended⟩ :=
    altered_byte_shows hcounts hwell hw hsmall 233 99 hdigest
  exact ⟨_, delivered, last, hw, hdigest, hreads, hpre, fun hlast =>
    (hended hlast).resolve_right fun h => absurd h.1 (by decide)⟩

end StreamReader
end QueryCluster
