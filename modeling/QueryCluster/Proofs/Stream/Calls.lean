import QueryCluster.Proofs.Stream.RoundTrip

/-!
# Streams call by call

A caller writes the schema, offers splits and finishes the stream. A refused split leaves no bytes behind,
so the stream is that of the splits which the writer took. A reader that is asked again and again gives
batches first, and then one answer for ever: the end of the stream or the fault that ended it.
-/
namespace QueryCluster

namespace StreamWriter

/-- What has been written of a stream, and what was refused. -/
structure Written where
  writer : StreamWriter
  bytes : Bytes
  refused : List SplitError := []
  deriving DecidableEq, Repr

def writeEach (w : StreamWriter) : List Split → Written
  | [] => { writer := w, bytes := [] }
  | s :: splits =>
    match w.writeSplit s with
    | .ok (w, front) =>
      let rest := writeEach w splits
      { rest with bytes := front ++ rest.bytes }
    | .error e =>
      let rest := writeEach w splits
      { rest with refused := e :: rest.refused }

def writeAll (batchRows : Nat) (schema : Schema) (splits : List Split) : Except SplitError Written := do
  let (w, front) ← (start batchRows).writeSchema schema
  let written := w.writeEach splits
  let back ← written.writer.finish
  return { written with bytes := front ++ (written.bytes ++ back) }

/-- The splits that a writer takes under a schema. -/
def taken (schema : Schema) (splits : List Split) : List Split := splits.filter (·.Shaped schema)

def refusal (schema : Schema) (s : Split) : SplitError :=
  .shape (.streamShape s.schema.columns.length s.schema.keys.length schema.columns.length
    schema.keys.length)

def batchesOf (batchRows : Nat) (splits : List Split) : List Split :=
  splits.flatMap (batches · (max batchRows 1))

theorem max_one_pos (batchRows : Nat) : 0 < max batchRows 1 :=
  Nat.lt_of_lt_of_le Nat.one_pos (Nat.le_max_right _ _)

theorem rowsOf_flatMap_batches (splits : List Split) {n : Nat} (hn : 0 < n) :
    rowsOf (splits.flatMap (batches · n)) = rowsOf splits := by
  induction splits with
  | nil => rfl
  | cons s splits ih =>
    rw [List.flatMap_cons, rowsOf_append, rowsOf_cons, rowsOf_batches s hn, ih]

theorem rowsOf_batchesOf (batchRows : Nat) (splits : List Split) :
    rowsOf (batchesOf batchRows splits) = rowsOf splits :=
  rowsOf_flatMap_batches splits (max_one_pos batchRows)

variable {schema : Schema} {splits : List Split}

theorem taken_of_shaped (h : ∀ s ∈ splits, s.Shaped schema) : taken schema splits = splits :=
  List.filter_eq_self.mpr fun s hs => decide_eq_true (h s hs)

theorem shaped_of_mem_taken {s : Split} (h : s ∈ taken schema splits) : s.Shaped schema :=
  of_decide_eq_true (List.mem_filter.mp h).2

theorem writeSplit_of_shaped {w : StreamWriter} (hw : w.schema = some schema) {s : Split}
    (h : s.Shaped schema) :
    w.writeSplit s = .ok ({ w with rowsWritten := w.rowsWritten + s.rowCount },
      (batches s w.batchRows).flatMap batchFrame) := by
  simp [writeSplit, hw, h.1, h.2]

theorem writeSplit_of_not_shaped {w : StreamWriter} (hw : w.schema = some schema) {s : Split}
    (h : ¬ s.Shaped schema) : w.writeSplit s = .error (refusal schema s) := by
  have hne : s.schema.columns.length ≠ schema.columns.length ∨
      s.schema.keys.length ≠ schema.keys.length := not_and_or.mp h
  rw [writeSplit, hw]
  exact if_pos hne

theorem writeEach_eq {w : StreamWriter} (hw : w.schema = some schema) (splits : List Split) :
    w.writeEach splits =
      { writer := { w with rowsWritten := w.rowsWritten + countRows (taken schema splits) }
        bytes := ((taken schema splits).flatMap (batches · w.batchRows)).flatMap batchFrame
        refused := (splits.filter (¬ ·.Shaped schema)).map (refusal schema) } := by
  induction splits generalizing w with
  | nil => simp [writeEach, taken, countRows]
  | cons s splits ih =>
    by_cases hs : s.Shaped schema
    · -- the writer behind a taken split has counted its rows
      have hnext := ih (w := { w with rowsWritten := w.rowsWritten + s.rowCount }) hw
      simp [writeEach, writeSplit_of_shaped hw hs, hnext, taken, hs, countRows, Nat.add_assoc]
    · simp [writeEach, writeSplit_of_not_shaped hw hs, ih hw, taken, hs]

/-- Whatever splits are offered, a stream of those that fit the schema comes about. -/
theorem writeAll_eq (batchRows : Nat) (schema : Schema) (splits : List Split) :
    writeAll batchRows schema splits =
      .ok { writer := ⟨max batchRows 1, some schema, countRows (taken schema splits)⟩
            bytes := stream schema (batchesOf batchRows (taken schema splits))
            refused := (splits.filter (¬ ·.Shaped schema)).map (refusal schema) } := by
  simp only [writeAll, start, writeSchema]
  have h := writeEach_eq (w := ⟨max batchRows 1, some schema, 0⟩) rfl splits
  simp only [bind, Except.bind, h, finish, Nat.zero_add]
  rfl

theorem ofSplit_eq (s : Split) (batchRows : Nat) :
    ofSplit s batchRows = stream s.schema (batches s (max batchRows 1)) := by
  rw [ofSplit, stream, List.append_assoc]

theorem batches_shaped {s b : Split} {n : Nat} (hs : s.Shaped schema) (hb : b ∈ batches s n) :
    b.Shaped schema := by
  obtain ⟨rows, _, rfl⟩ := List.mem_map.mp hb
  exact hs

theorem batchesOf_shaped {b : Split} {batchRows : Nat} (h : ∀ s ∈ splits, s.Shaped schema)
    (hb : b ∈ batchesOf batchRows splits) : b.Shaped schema := by
  obtain ⟨s, hs, hb⟩ := List.mem_flatMap.mp hb
  exact batches_shaped (h s hs) hb

end StreamWriter

namespace StreamReader

open StreamWriter (stream payload schemaFrame batchFrame endFrame Fits)

variable {schema : Schema} {r r' : StreamReader} {splits : List Split}
  {last : Except SplitError (Option Split)}

/-- What a reader answers when it is asked for the next batch a number of times. -/
def answers : Nat → StreamReader → List (Except SplitError (Option Split))
  | 0, _ => []
  | n + 1, r => r.readSplit.1 :: answers n r.readSplit.2

/-- The batches come first, and one answer follows them for ever. -/
def Gives (r : StreamReader) (splits : List Split) (last : Except SplitError (Option Split)) : Prop :=
  ∀ n, r.answers (splits.length + n) = splits.map (fun s => .ok (some s)) ++ List.replicate n last

theorem gives_cons {s : Split} (h : r.readSplit = (.ok (some s), r')) (hr : r'.Gives splits last) :
    r.Gives (s :: splits) last := by
  intro n
  rw [List.length_cons, Nat.add_right_comm, answers, h, hr n]
  rfl

/-- An answer that leaves the reader where it stands is given for ever. -/
theorem gives_nil (h : r.readSplit = (last, r)) : r.Gives [] last := by
  intro n
  rw [List.length_nil, Nat.zero_add]
  induction n with
  | zero => rfl
  | succ n ih => rw [answers, h, ih]; rfl

theorem gives_nil_of_next (h : r.readSplit = (last, r')) (hr : r'.Gives [] last) : r.Gives [] last := by
  intro n
  cases n with
  | zero => rfl
  | succ n =>
    have hn := hr n
    rw [List.length_nil, Nat.zero_add] at hn ⊢
    rw [answers, h, hn]
    rfl

theorem Gives.cons {s : Split} (h : r.Gives (s :: splits) last) :
    ∃ r', r.readSplit = (.ok (some s), r') ∧ r'.Gives splits last := by
  have hn := fun n => h n
  simp only [List.length_cons, Nat.add_right_comm _ 1, answers, List.map_cons, List.cons_append,
    List.cons.injEq] at hn
  exact ⟨r.readSplit.2, Prod.ext (hn 0).1 rfl, fun n => (hn n).2⟩

theorem Gives.nil (h : r.Gives [] last) : ∃ r', r.readSplit = (last, r') ∧ r'.Gives [] last := by
  have hn := fun n => h (n + 1)
  simp only [List.length_nil, answers, List.map_nil, List.nil_append, List.replicate_succ,
    List.cons.injEq] at hn
  exact ⟨r.readSplit.2, Prod.ext (hn 0).1 rfl, fun n => by simpa using (hn n).2⟩

/-- A reader that fails at once has no batch to give. -/
theorem Gives.failed {e : SplitError} (h : r.Gives splits last) (hr : r.readSplit = (.error e, r')) :
    splits = [] ∧ last = .error e ∧ r'.Gives [] last := by
  cases splits with
  | nil =>
    obtain ⟨_, hsame, hrest⟩ := h.nil
    obtain ⟨rfl, rfl⟩ := Prod.mk.inj (hr.symm.trans hsame)
    exact ⟨rfl, rfl, hrest⟩
  | cons s splits =>
    obtain ⟨_, hsame, _⟩ := h.cons
    cases hr.symm.trans hsame

theorem gives_of_done (h : r.done = true) : r.Gives [] (.ok none) := gives_nil (by simp [readSplit, h])

/-- Nothing more comes out of a source that is used up without an end frame. -/
theorem gives_of_drained (hs : r.source = []) (hd : r.done = false) : r.Gives [] (.error .truncated) := by
  apply gives_nil
  obtain ⟨source, schema, done⟩ := r
  subst hs hd
  cases schema <;> rfl

theorem readSchema_ok (h : r.readSchema = (.ok schema, r')) :
    r'.schema = some schema ∧ r'.done = r.done := by
  unfold readSchema at h
  split at h
  · cases h
    exact ⟨‹_›, rfl⟩
  · simp only at h
    split at h
    · cases h
    · cases h
    · split at h <;> cases h
      exact ⟨rfl, rfl⟩
    · cases h

theorem readSplit_of_readSchema {e : SplitError} (hd : r.done = false)
    (h : r.readSchema = (.error e, r')) : r.readSplit = (.error e, r') := by
  rw [readSplit, if_neg (by simp [hd]), h]

theorem answers_congr (h : r.readSplit = r'.readSplit) (n : Nat) : r.answers n = r'.answers n := by
  cases n with
  | zero => rfl
  | succ n => rw [answers, answers, h]

/-- Asking for the schema first changes no answer. -/
theorem Gives.readSchema (h : r.Gives splits last) (hd : r.done = false) :
    r.readSchema.2.Gives splits last := by
  rcases hr : r.readSchema with ⟨result, r'⟩
  cases result with
  | ok schema =>
    obtain ⟨hs, hdone⟩ := readSchema_ok hr
    have hsame : r.readSplit = r'.readSplit := by
      rw [readSplit_of_schema (hdone.trans hd) hs, readSplit, if_neg (by simp [hd]), hr]
    exact fun n => answers_congr hsame _ ▸ h n
  | error e =>
    obtain ⟨rfl, _, hrest⟩ := h.failed (readSplit_of_readSchema hd hr)
    exact hrest

/-! ## The rest of a stream as one split -/

theorem readRest_of_ended {fuel : Nat} {all : Split} (h : r.Gives splits (.ok none))
    (hs : ∀ s ∈ splits, s.Shaped all.schema) (hf : splits.length < fuel) :
    (readRest fuel r all).1 = .ok { all with rows := all.rows ++ rowsOf splits } := by
  induction splits generalizing r all fuel with
  | nil =>
    obtain ⟨fuel, rfl⟩ := Nat.exists_eq_succ_of_ne_zero (Nat.ne_of_gt hf)
    obtain ⟨r', hr, _⟩ := h.nil
    simp [readRest, hr]
  | cons s splits ih =>
    obtain ⟨fuel, rfl⟩ := Nat.exists_eq_succ_of_ne_zero
      (Nat.ne_of_gt (Nat.lt_of_le_of_lt (Nat.zero_le _) hf))
    obtain ⟨r', hr, hrest⟩ := h.cons
    obtain ⟨hs, htail⟩ := List.forall_mem_cons.mp hs
    have hlen : splits.length < fuel := Nat.lt_of_succ_lt_succ hf
    simp only [readRest, hr, Split.append_of_shaped hs]
    have hnext : (readRest fuel r' { all with rows := all.rows ++ s.rows }).1 = _ := ih hrest htail hlen
    simp [hnext]

theorem readRest_of_truncated {all : Split} (h : r.Gives splits (.error .truncated))
    (hs : ∀ s ∈ splits, s.Shaped all.schema) (fuel : Nat) :
    (readRest fuel r all).1 = .error .truncated := by
  induction fuel generalizing r all splits with
  | zero => rfl
  | succ fuel ih =>
    cases splits with
    | nil =>
      obtain ⟨r', hr, _⟩ := h.nil
      simp [readRest, hr]
    | cons s splits =>
      obtain ⟨r', hr, hrest⟩ := h.cons
      obtain ⟨hs, htail⟩ := List.forall_mem_cons.mp hs
      simp only [readRest, hr, Split.append_of_shaped hs]
      exact @ih r' splits { all with rows := all.rows ++ s.rows } hrest htail

theorem readAll_of_truncated (h : r.Gives splits (.error .truncated)) (hd : r.done = false)
    (hs : ∀ schema, r.readSchema.1 = .ok schema → ∀ s ∈ splits, s.Shaped schema) :
    r.readAll.1 = .error .truncated := by
  have hbehind := h.readSchema hd
  rcases hr : r.readSchema with ⟨result, r'⟩
  rw [hr] at hbehind
  cases result with
  | ok schema =>
    simp only [readAll, hr]
    exact readRest_of_truncated hbehind (hs schema (by rw [hr])) _
  | error e =>
    obtain ⟨_, hlast, _⟩ := h.failed (readSplit_of_readSchema hd hr)
    rw [readAll, hr, Except.error.inj hlast]

/-! ## Batches in front of a tail -/

def behind (schema : Schema) (bs : Bytes) : StreamReader :=
  { source := Source.ofBytes bs, schema := some schema }

theorem gives_endFrame (schema : Schema) : (behind schema endFrame).Gives [] (.ok none) := by
  have hsource : (behind schema endFrame).source = Source.ofBytes (endFrame ++ []) := by simp [behind]
  have hn : (behind schema endFrame).nextBatch schema = _ := nextBatch_endFrame _ hsource
  exact gives_nil_of_next (by rw [readSplit_of_schema rfl rfl, hn]) (gives_of_done rfl)

theorem gives_batches {batches : List Split} (hs : ∀ s ∈ batches, s.Shaped schema)
    (hl : ∀ s ∈ batches, (payload s).length ≤ maxPayload) {tail : Bytes}
    (ht : (behind schema tail).Gives splits last) :
    (behind schema (batches.flatMap batchFrame ++ tail)).Gives
      (batches.map (·.delivered schema) ++ splits) last := by
  induction batches with
  | nil => exact ht
  | cons s batches ih =>
    obtain ⟨hs, hrest⟩ := List.forall_mem_cons.mp hs
    obtain ⟨hl, hlrest⟩ := List.forall_mem_cons.mp hl
    have hsource : (behind schema ((s :: batches).flatMap batchFrame ++ tail)).source =
        Source.ofBytes (batchFrame s ++ (batches.flatMap batchFrame ++ tail)) := by simp [behind]
    have hn := nextBatch_batchFrame _ hs hl hsource
    exact gives_cons (by rw [readSplit_of_schema rfl rfl, hn]; rfl) (ih hrest hlrest)

theorem gives_behind {batches : List Split} (hs : ∀ s ∈ batches, s.Shaped schema)
    (hl : ∀ s ∈ batches, (payload s).length ≤ maxPayload) :
    (behind schema (batches.flatMap batchFrame ++ endFrame)).Gives (batches.map (·.delivered schema))
      (.ok none) := by
  have hbatches := gives_batches hs hl (gives_endFrame schema)
  rwa [List.append_nil] at hbatches

theorem readSplit_schemaFrame (h : schema.encode.length ≤ maxPayload) (rest : Bytes) :
    (ofBytes (schemaFrame schema ++ rest)).readSplit = (behind schema rest).readSplit := by
  have hr := readSchema_schemaFrame rest h
  rw [readSplit, if_neg (by simp [ofBytes]), hr, readSplit_of_schema rfl rfl]
  rfl

variable {batches : List Split}

theorem rowsOf_delivered (hcounts : schema.Counts) (hfits : ∀ r ∈ rowsOf batches, r.Fits schema) :
    rowsOf (batches.map (·.delivered schema)) = rowsOf batches := by
  induction batches with
  | nil => rfl
  | cons s batches ih =>
    rw [rowsOf_cons] at hfits
    obtain ⟨hfirst, hrest⟩ := List.forall_mem_append.mp hfits
    have hrows : s.rows.map (·.squared schema) = s.rows :=
      (List.map_congr_left fun r hr => Row.squared_of_fits (hfirst r hr)).trans (List.map_id' _)
    rw [List.map_cons, rowsOf_cons, rowsOf_cons, ih hrest, Split.delivered, if_pos hcounts, hrows]

theorem gives_stream (hs : ∀ s ∈ batches, s.Shaped schema) (hfit : Fits maxPayload schema batches) :
    (ofBytes (stream schema batches)).Gives (batches.map (·.delivered schema)) (.ok none) :=
  fun n => answers_congr (readSplit_schemaFrame hfit.schema _) _ ▸ gives_behind hs hfit.batches n

theorem readAll_stream (hs : ∀ s ∈ batches, s.Shaped schema) (hfit : Fits maxPayload schema batches) :
    (ofBytes (stream schema batches)).readAll.1 =
      .ok { schema, rows := rowsOf (batches.map (·.delivered schema)) } := by
  have hfuel := length_le_source batches
  rw [readAll, stream, readSchema_schemaFrame _ hfit.schema]
  refine readRest_of_ended (gives_behind hs hfit.batches) (fun s h => ?_) (by rwa [List.length_map])
  obtain ⟨b, _, rfl⟩ := List.mem_map.mp h
  exact b.shaped_delivered schema

end StreamReader
end QueryCluster

/-!
## Feeds over streams

A feed over a complete stream has the schema and the batches of the stream, and no fault. It has a fault if
a frame of the stream is beyond the payload limit.
-/
namespace QueryCluster.Feed

open Codec (lengthLimit)
open StreamReader (behind)
open StreamWriter (stream payload schemaFrame batchFrame endFrame Fits)

variable {schema : Schema} {batches : List Split}

theorem readSplits_of_ended {r : StreamReader} {splits : List Split} (h : r.Gives splits (.ok none))
    {fuel : Nat} (hf : splits.length < fuel) : readSplits fuel r = (splits, none) := by
  induction splits generalizing r fuel with
  | nil =>
    obtain ⟨fuel, rfl⟩ := Nat.exists_eq_succ_of_ne_zero (Nat.ne_of_gt hf)
    obtain ⟨r', hr, _⟩ := h.nil
    rw [readSplits, hr]
  | cons s splits ih =>
    obtain ⟨fuel, rfl⟩ := Nat.exists_eq_succ_of_ne_zero
      (Nat.ne_of_gt (Nat.lt_of_le_of_lt (Nat.zero_le _) hf))
    obtain ⟨r', hr, hrest⟩ := h.cons
    simp [readSplits, hr, ih hrest (Nat.lt_of_succ_lt_succ hf)]

theorem ofStream_of_readSchema {r behind : StreamReader} {result : Except SplitError Schema}
    (h : r.readSchema = (result, behind)) :
    ofStream r = ⟨result.mapError .split, (readSplits (behind.source.size + 2) behind).1,
      (readSplits (behind.source.size + 2) behind).2⟩ := by
  rw [ofStream, h]

/-- A complete stream gives its schema and all its batches, and then ends. -/
theorem ofStream_stream (hu : ∀ s ∈ batches, s.Under schema) (hc : schema.Counts)
    (hfit : Fits maxPayload schema batches) :
    ofStream (.ofBytes (stream schema batches)) =
      { schema := .ok schema, splits := batches.map Split.undirected } := by
  have hs := StreamReader.readSchema_schemaFrame (batches.flatMap batchFrame ++ endFrame) hfit.schema
  have hgives := StreamReader.gives_behind (fun s h => (hu s h).shaped) hfit.batches
  rw [List.map_congr_left fun s h => (hu s h).delivered hc] at hgives
  have hr := readSplits_of_ended hgives (by
    rw [List.length_map]
    exact StreamReader.length_le_source batches)
  rw [stream, ofStream_of_readSchema hs]
  change Feed.mk (.ok schema) (readSplits _ (behind schema _)).1 (readSplits _ (behind schema _)).2 = _
  rw [hr]

theorem readSplits_tooLong (hu : ∀ s ∈ batches, s.Under schema)
    (hsmall : ∀ s ∈ batches, (payload s).length < lengthLimit)
    (hl : ∃ s ∈ batches, maxPayload < (payload s).length) (fuel : Nat) :
    (readSplits fuel (behind schema (batches.flatMap batchFrame ++ endFrame))).2 ≠ none := by
  induction batches generalizing fuel with
  | nil =>
    obtain ⟨s, hs, _⟩ := hl
    cases hs
  | cons s batches ih =>
    cases fuel with
    | zero => simp [readSplits]
    | succ fuel =>
      have hs := List.mem_cons_self (a := s) (l := batches)
      have hsource : (behind schema ((s :: batches).flatMap batchFrame ++ endFrame)).source =
          Source.ofBytes (batchFrame s ++ (batches.flatMap batchFrame ++ endFrame)) := by
        simp [behind]
      rw [readSplits, StreamReader.readSplit_of_schema rfl rfl]
      by_cases hlong : maxPayload < (payload s).length
      · have hn := StreamReader.nextBatch_tooLong schema _ hlong (hsmall s hs) hsource
        rw [hn]
        exact Option.some_ne_none _
      · have hn := StreamReader.nextBatch_batchFrame _ (hu s hs).shaped (Nat.not_lt.mp hlong) hsource
        rw [hn]
        obtain ⟨t, ht, hlt⟩ := hl
        have htail : t ∈ batches := by
          rcases List.mem_cons.mp ht with rfl | ht
          · exact absurd hlt hlong
          · exact ht
        exact ih (fun b hb => hu b (List.mem_cons_of_mem s hb))
          (fun b hb => hsmall b (List.mem_cons_of_mem s hb)) ⟨t, htail, hlt⟩ fuel

/-- Only a stream whose frames all fit is read to its end. -/
theorem fits_of_ofStream (hu : ∀ s ∈ batches, s.Under schema)
    (hsmall : Fits (lengthLimit - 1) schema batches)
    (hschema : ∃ t, (ofStream (.ofBytes (stream schema batches))).schema = .ok t)
    (hfault : (ofStream (.ofBytes (stream schema batches))).fault = none) :
    Fits maxPayload schema batches := by
  obtain ⟨hschemaLt, hbatchesLt⟩ := hsmall.lt_lengthLimit
  have hs : schema.encode.length ≤ maxPayload := by
    by_contra hlong
    have hr := StreamReader.readSchema_tooLong (batches.flatMap batchFrame ++ endFrame)
      (Nat.not_le.mp hlong) hschemaLt
    obtain ⟨t, ht⟩ := hschema
    rw [stream, ofStream_of_readSchema hr] at ht
    cases ht
  refine ⟨hs, fun s hm => ?_⟩
  by_contra hlong
  have hr := StreamReader.readSchema_schemaFrame (batches.flatMap batchFrame ++ endFrame) hs
  rw [stream, ofStream_of_readSchema hr] at hfault
  exact readSplits_tooLong hu hbatchesLt ⟨s, hm, Nat.not_le.mp hlong⟩ _ hfault

end QueryCluster.Feed
