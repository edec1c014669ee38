import QueryCluster.Proofs.Operator.Feeds

/-!
# Streams as they arrive

Any part of a stream may have arrived at its reader, in deliveries of any size and with interruptions
and failures in between. The reader takes the batches from it that were written, in their order. It meets a
fault unless the stream has arrived to its last byte, and no such fault says that a batch is of a wrong
shape.
-/
namespace QueryCluster

open Codec (lengthLimit)

/-- Bytes in front of others, cut where the others are. -/
theorem prefix_cut {bs rest front back : Bytes} (h : bs ++ rest <+: front ++ back)
    (hlen : bs.length = front.length) : bs = front ∧ rest <+: back := by
  obtain ⟨tail, htail⟩ := h
  rw [List.append_assoc] at htail
  obtain ⟨rfl, rfl⟩ := List.append_inj htail hlen
  exact ⟨rfl, List.prefix_append rest tail⟩

theorem Source.bytes_data (bs : Bytes) (s : Source) : bytes (.data bs :: s) = bs ++ bytes s := rfl

/-- Bytes that were asked for are the next that the source delivers. -/
theorem Source.take_full {n : Nat} {s rest : Source} {bs : Bytes} (h : take n s = .full bs rest) :
    bs.length = n ∧ s.bytes = bs ++ rest.bytes := by
  fun_induction take n s generalizing bs with
  | case1 s =>
    cases h
    exact ⟨rfl, rfl⟩
  | case2 n => cases h
  | case3 n s ih => exact ih h
  | case4 n s => cases h
  | case5 n front s hempty => cases h
  | case6 n front s hsome hlong =>
    cases h
    refine ⟨by rw [List.length_take]; omega, ?_⟩
    rw [bytes_data, bytes_data, ← List.append_assoc, List.take_append_drop]
  | case7 n front s hsome hshort ih =>
    rcases ht : take (n + 1 - front.length) s with ⟨got, rest'⟩ | ⟨got, rest'⟩ | ⟨got, rest'⟩
    · rw [ht] at h
      cases h
      obtain ⟨hlen, hbytes⟩ := ih ht
      refine ⟨by rw [List.length_append]; omega, ?_⟩
      rw [bytes_data, hbytes, List.append_assoc]
    · rw [ht] at h
      cases h
    · rw [ht] at h
      cases h

/-- A fault of the way, not of what was sent. -/
def SplitError.OfWay (e : SplitError) : Prop := ∀ fault, e ≠ .shape fault

namespace Frame

/-- From part of what begins with a frame comes this frame, or none. -/
theorem read_arriving (f : Frame) (hsmall : f.payload.length < lengthLimit) {s : Source} {tail : Bytes}
    (h : s.bytes <+: f.encode ++ tail) :
    (∃ rest, read s = (.ok (some f), rest) ∧ s.bytes = f.encode ++ rest.bytes) ∨
      (∃ rest, read s = (.ok none, rest)) ∨ ∃ e rest, read s = (.error e, rest) ∧ e.OfWay := by
  rw [read]
  rcases ht : s.take headerLength with ⟨bs, rest⟩ | ⟨got, rest⟩ | ⟨got, rest⟩
  · obtain ⟨hlen, hbytes⟩ := Source.take_full ht
    rw [hbytes, encode, List.append_assoc] at h
    obtain ⟨rfl, hrest⟩ := prefix_cut h (by rw [hlen, length_header])
    simp only [f.header_read hsmall]
    by_cases hlong : maxPayload < f.payload.length
    · rw [if_pos hlong]
      exact .inr (.inr ⟨_, _, rfl, fun _ => by simp⟩)
    rw [if_neg hlong]
    simp only [readPayload]
    rcases hp : rest.take f.payload.length with ⟨payload, rest'⟩ | ⟨got, rest'⟩ | ⟨got, rest'⟩
    · obtain ⟨hlen', hbytes'⟩ := Source.take_full hp
      rw [hbytes'] at hrest
      obtain ⟨rfl, _⟩ := prefix_cut hrest hlen'
      exact .inl ⟨rest', by simp, by rw [hbytes, hbytes', encode, List.append_assoc]⟩
    · exact .inr (.inr ⟨_, _, rfl, fun _ => by simp⟩)
    · exact .inr (.inr ⟨_, _, rfl, fun _ => by simp⟩)
  · cases got with
    | nil => exact .inr (.inl ⟨rest, rfl⟩)
    | cons b got => exact .inr (.inr ⟨_, _, rfl, fun _ => by simp⟩)
  · exact .inr (.inr ⟨_, _, rfl, fun _ => by simp⟩)

end Frame

namespace StreamReader

open StreamWriter (stream payload schemaFrame batchFrame endFrame Fits)

variable {schema : Schema} {r : StreamReader}

theorem readSchema_arriving (hsmall : schema.encode.length < lengthLimit) (hs : r.schema = none)
    {tail : Bytes} (h : r.source.bytes <+: schemaFrame schema ++ tail) :
    (∃ rest, r.readSchema = (.ok schema, { r with source := rest, schema := some schema }) ∧
      r.source.bytes = schemaFrame schema ++ rest.bytes) ∨
    ∃ e r', r.readSchema = (.error e, r') ∧ e.OfWay := by
  have hd := (Schema.faithful.reads schema hsmall).decode?
  rcases Frame.read_arriving ⟨.metadata, schema.encode⟩ hsmall h with
    ⟨rest, hread, hbytes⟩ | ⟨rest, hread⟩ | ⟨e, rest, hread, he⟩
  · exact .inl ⟨rest, by simp only [readSchema, hs, hread, hd], hbytes⟩
  · exact .inr ⟨.truncated, _, by simp only [readSchema, hs, hread]; rfl, fun _ => by simp⟩
  · exact .inr ⟨e, _, by simp only [readSchema, hs, hread]; rfl, he⟩

theorem nextBatch_arriving (schema : Schema) {s : Split} (hsmall : (payload s).length < lengthLimit) {tail : Bytes}
    (h : r.source.bytes <+: batchFrame s ++ tail) :
    (∃ rest, r.nextBatch schema =
        ((readBatch schema (payload s)).map some, { r with source := rest }) ∧
      r.source.bytes = batchFrame s ++ rest.bytes) ∨
    ∃ e r', r.nextBatch schema = (.error e, r') ∧ e.OfWay := by
  rcases Frame.read_arriving ⟨.batch, payload s⟩ hsmall h with
    ⟨rest, hread, hbytes⟩ | ⟨rest, hread⟩ | ⟨e, rest, hread, he⟩
  · exact .inl ⟨rest, by simp only [nextBatch, hread], hbytes⟩
  · exact .inr ⟨.truncated, _, by simp only [nextBatch, hread]; rfl, fun _ => by simp⟩
  · exact .inr ⟨e, _, by simp only [nextBatch, hread]; rfl, he⟩

theorem nextBatch_arriving_end (schema : Schema) (h : r.source.bytes <+: endFrame) :
    (∃ r', r.nextBatch schema = (.ok none, r') ∧ r.source.bytes = endFrame) ∨
    ∃ e r', r.nextBatch schema = (.error e, r') ∧ e.OfWay := by
  have hall : r.source.bytes <+: Frame.encode ⟨.finish, []⟩ ++ [] := by
    rw [List.append_nil]
    exact h
  rcases Frame.read_arriving ⟨.finish, []⟩ (by decide) hall with
    ⟨rest, hread, hbytes⟩ | ⟨rest, hread⟩ | ⟨e, rest, hread, he⟩
  · refine .inl ⟨{ r with source := rest, done := true }, by simp only [nextBatch, hread], ?_⟩
    rw [hbytes] at hall ⊢
    obtain ⟨_, hrest⟩ := prefix_cut hall rfl
    rw [List.prefix_nil.mp hrest, List.append_nil, endFrame]
  · exact .inr ⟨.truncated, _, by simp only [nextBatch, hread]; rfl, fun _ => by simp⟩
  · exact .inr ⟨e, _, by simp only [nextBatch, hread]; rfl, he⟩

end StreamReader

namespace Feed

open StreamWriter (stream payload schemaFrame batchFrame endFrame Fits)

variable {schema : Schema} {batches : List Split}

/-- Splits end without a fault only where the stream does. -/
theorem readSplits_ended (hsmall : ∀ s ∈ batches, (payload s).length < lengthLimit) {fuel : Nat}
    {r : StreamReader} (hs : r.schema = some schema) (hd : r.done = false)
    (h : r.source.bytes <+: batches.flatMap batchFrame ++ endFrame)
    (hend : (readSplits fuel r).2 = none) :
    r.source.bytes = batches.flatMap batchFrame ++ endFrame := by
  induction batches generalizing fuel r with
  | nil =>
    cases fuel with
    | zero => cases hend
    | succ fuel =>
      rw [readSplits, StreamReader.readSplit_of_schema hd hs] at hend
      rcases StreamReader.nextBatch_arriving_end schema h with ⟨r', hn, hbytes⟩ | ⟨e, r', hn, _⟩
      · exact hbytes
      · rw [hn] at hend
        cases hend
  | cons s batches ih =>
    cases fuel with
    | zero => cases hend
    | succ fuel =>
      obtain ⟨hs', hrest⟩ := List.forall_mem_cons.mp hsmall
      rw [List.flatMap_cons, List.append_assoc] at h ⊢
      rw [readSplits, StreamReader.readSplit_of_schema hd hs] at hend
      rcases StreamReader.nextBatch_arriving schema hs' h with
        ⟨rest, hn, hbytes⟩ | ⟨e, r', hn, _⟩
      · rcases hb : StreamReader.readBatch schema (payload s) with e | b
        · rw [hn, hb] at hend
          cases hend
        · rw [hn, hb] at hend
          rw [hbytes] at h ⊢
          rw [ih hrest (r := { r with source := rest }) hs hd (prefix_cut h rfl).2 hend]
      · rw [hn] at hend
        cases hend

/-- What comes of part of a stream of batches that fit their schema. -/
theorem readSplits_arriving (hsmall : ∀ s ∈ batches, (payload s).length < lengthLimit)
    (hshaped : ∀ s ∈ batches, s.Shaped schema) (fuel : Nat) {r : StreamReader}
    (hs : r.schema = some schema) (hd : r.done = false)
    (h : r.source.bytes <+: batches.flatMap batchFrame ++ endFrame) :
    (readSplits fuel r).1 <+: batches.map (·.delivered schema) ∧
      ∀ e ∈ (readSplits fuel r).2, ∃ cause, e = .split cause ∧ cause.OfWay := by
  induction batches generalizing fuel r with
  | nil =>
    cases fuel with
    | zero => simp [readSplits, SplitError.OfWay]
    | succ fuel =>
      rw [readSplits, StreamReader.readSplit_of_schema hd hs]
      rcases StreamReader.nextBatch_arriving_end schema h with ⟨r', hn, _⟩ | ⟨e, r', hn, he⟩
      · simp [hn]
      · simp [hn, he]
  | cons s batches ih =>
    cases fuel with
    | zero => simp [readSplits, SplitError.OfWay]
    | succ fuel =>
      obtain ⟨hs', hrest⟩ := List.forall_mem_cons.mp hsmall
      obtain ⟨hfit, hfits⟩ := List.forall_mem_cons.mp hshaped
      rw [List.flatMap_cons, List.append_assoc] at h
      rw [readSplits, StreamReader.readSplit_of_schema hd hs]
      rcases StreamReader.nextBatch_arriving schema hs' h with
        ⟨rest, hn, hbytes⟩ | ⟨e, r', hn, he⟩
      · rw [StreamReader.readBatch_payload hfit hs'] at hn
        rw [hbytes] at h
        obtain ⟨hpre, hfaults⟩ := ih hrest hfits fuel (r := { r with source := rest }) hs hd
          (prefix_cut h rfl).2
        rw [hn]
        exact ⟨(List.prefix_cons_inj _).mpr hpre, hfaults⟩
      · simp [hn, he]

/-- What a feed over part of a stream is like. Without a schema nothing else of it is looked at. -/
structure Arriving (schema : Schema) (batches : List Split) (f : Feed) : Prop where
  refused : ∀ e, f.schema = .error e → ∃ cause, e = .split cause ∧ cause.OfWay
  opened : ∀ s, f.schema = .ok s → s = schema ∧ f.splits <+: batches.map (·.delivered schema) ∧
    ∀ e ∈ f.fault, ∃ cause, e = .split cause ∧ cause.OfWay

variable {source : Source}

theorem ofStream_arriving (hsmall : Fits (lengthLimit - 1) schema batches)
    (hshaped : ∀ s ∈ batches, s.Shaped schema) (h : source.bytes <+: stream schema batches) :
    (ofStream { source }).Arriving schema batches := by
  obtain ⟨hschema, hbatches⟩ := hsmall.lt_lengthLimit
  rcases StreamReader.readSchema_arriving (r := { source }) hschema rfl h with
    ⟨rest, hread, hbytes⟩ | ⟨e, r', hread, he⟩
  · have hbytes : source.bytes = schemaFrame schema ++ rest.bytes := hbytes
    rw [hbytes, stream] at h
    have hsplits := readSplits_arriving hbatches hshaped (rest.size + 2)
      (r := { source := rest, schema := some schema }) rfl rfl (prefix_cut h rfl).2
    rw [ofStream_of_readSchema hread]
    refine ⟨fun e he => ?_, fun s hs => ?_⟩
    · cases he
    · cases hs
      exact ⟨rfl, hsplits⟩
  · rw [ofStream_of_readSchema hread]
    refine ⟨fun e' he' => ?_, fun s hs => ?_⟩
    · cases he'
      exact ⟨e, rfl, he⟩
    · cases hs

/-- Only all of a stream makes a feed that ends. -/
theorem ofStream_ended (hsmall : Fits (lengthLimit - 1) schema batches)
    (h : source.bytes <+: stream schema batches)
    (hended : ∃ t, (ofStream { source }).Ended t) : source.bytes = stream schema batches := by
  obtain ⟨hschema, hbatches⟩ := hsmall.lt_lengthLimit
  obtain ⟨t, ht, hfault⟩ := hended
  rcases StreamReader.readSchema_arriving (r := { source }) hschema rfl h with
    ⟨rest, hread, hbytes⟩ | ⟨e, r', hread, he⟩
  · have hbytes : source.bytes = schemaFrame schema ++ rest.bytes := hbytes
    rw [ofStream_of_readSchema hread] at hfault
    rw [hbytes, stream] at h ⊢
    rw [readSplits_ended hbatches (r := { source := rest, schema := some schema }) rfl rfl
      (prefix_cut h rfl).2 hfault]
  · rw [ofStream_of_readSchema hread] at ht
    cases ht

end Feed
end QueryCluster
