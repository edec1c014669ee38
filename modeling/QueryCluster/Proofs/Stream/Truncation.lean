import QueryCluster.Message.Results
import QueryCluster.Proofs.Stream.Calls
import QueryCluster.Proofs.Text.Base64

/-!
# Streams cut short

Wherever a stream is cut, in a header, in a payload or between two frames, its reader gives the batches
in front of the cut and then says for ever that the stream is truncated. Only the end frame ends a stream,
and no proper prefix of a stream holds it whole.
-/
namespace QueryCluster

/-- A cut through two pieces is in the first one, or behind it and in the second. -/
theorem cut_append {front back cut : Bytes} (h : cut <+: front ++ back) :
    (cut <+: front ∧ cut ≠ front) ∨ ∃ rest, cut = front ++ rest ∧ rest <+: back := by
  rcases Nat.lt_or_ge cut.length front.length with hlt | hge
  · left
    refine ⟨List.prefix_of_prefix_length_le h (List.prefix_append front back)
      (Nat.le_of_lt hlt), ?_⟩
    rintro rfl
    exact Nat.lt_irrefl _ hlt
  · right
    obtain ⟨rest, rfl⟩ := List.prefix_of_prefix_length_le (List.prefix_append front back) h hge
    exact ⟨rest, rfl, (List.prefix_append_right_inj front).mp h⟩

theorem length_lt_of_cut {bs cut : Bytes} (h : cut <+: bs) (hne : cut ≠ bs) : cut.length < bs.length :=
  Nat.lt_of_le_of_ne h.length_le fun hlen => hne (h.eq_of_length hlen)

theorem Source.take_short {bs : Bytes} {n : Nat} (h : bs.length < n) :
    take n (ofBytes bs) = .closed bs [] := by
  obtain ⟨n, rfl⟩ := Nat.exists_eq_succ_of_ne_zero (Nat.ne_of_gt (Nat.lt_of_le_of_lt (Nat.zero_le _) h))
  cases bs with
  | nil => rfl
  | cons b bs =>
    have hleft : n + 1 - (b :: bs).length = (n - (b :: bs).length) + 1 := by omega
    have hne : (b :: bs).isEmpty = false := rfl
    rw [ofBytes, hne]
    simp only [Bool.false_eq_true, if_false, take, hne, Nat.not_lt.mpr (Nat.le_of_lt h), hleft]
    rw [Taken.prepend, List.append_nil]

/-- Of a frame cut short nothing comes; a cut in front of its first byte looks like a closed source. -/
theorem Frame.read_cut (f : Frame) (hl : f.payload.length ≤ maxPayload) {cut : Bytes}
    (h : cut <+: f.encode) (hne : cut ≠ f.encode) :
    read (Source.ofBytes cut) = (if cut = [] then .ok none else .error .truncated, []) := by
  rcases cut_append h with ⟨hheader, hshort⟩ | ⟨part, rfl, hpart⟩
  -- the header itself is cut
  · have hlen := length_lt_of_cut hheader hshort
    rw [length_header] at hlen
    rw [read, Source.take_short hlen]
    cases cut with
    | nil => rfl
    | cons b cut => rfl
  -- the header is whole and announces more than is left
  · have hlen := length_lt_of_cut hpart fun he => hne (by rw [he, encode])
    have htake := Source.take_append f.header part
    have hread := f.header_read (Nat.lt_of_le_of_lt hl (by decide))
    have hsome : f.header ++ part ≠ [] := by
      intro he
      have hzero := congrArg List.length he
      rw [List.length_append, length_header] at hzero
      exact absurd hzero (by simp [headerLength])
    rw [length_header] at htake
    rw [if_neg (Nat.not_lt.mpr hl)] at hread
    rw [read, htake, if_neg hsome]
    simp only [hread, readPayload, Source.take_short hlen]

namespace StreamReader

open StreamWriter (stream payload schemaFrame batchFrame endFrame Fits Written writeAll batchesOf taken)

variable {schema : Schema} {cut : Bytes}

theorem readSchema_cut {r : StreamReader} {f : Frame} (hl : f.payload.length ≤ maxPayload)
    (hr : r.source = Source.ofBytes cut) (h : cut <+: f.encode) (hne : cut ≠ f.encode)
    (hs : r.schema = none) : r.readSchema = (.error .truncated, { r with source := [] }) := by
  rw [readSchema, hs, hr, f.read_cut hl h hne]
  by_cases hc : cut = [] <;> simp [hc]

theorem nextBatch_cut (r : StreamReader) {f : Frame} (hl : f.payload.length ≤ maxPayload)
    (hr : r.source = Source.ofBytes cut) (h : cut <+: f.encode) (hne : cut ≠ f.encode) :
    r.nextBatch schema = (.error .truncated, { r with source := [] }) := by
  rw [nextBatch, hr, f.read_cut hl h hne]
  by_cases hc : cut = [] <;> simp [hc]

/-- Both a reader that waits for the schema and one that waits for a batch take a cut for a fault. -/
theorem gives_of_cut {r : StreamReader} (hd : r.done = false) {f : Frame}
    (hl : f.payload.length ≤ maxPayload) (hr : r.source = Source.ofBytes cut) (h : cut <+: f.encode)
    (hne : cut ≠ f.encode) : r.Gives [] (.error .truncated) := by
  have hsplit : r.readSplit = (.error .truncated, { r with source := [] }) := by
    by_cases hs : r.schema = none
    · exact readSplit_of_readSchema hd (readSchema_cut hl hr h hne hs)
    · obtain ⟨schema, hs⟩ := Option.ne_none_iff_exists'.mp hs
      rw [readSplit_of_schema hd hs, nextBatch_cut r hl hr h hne]
  exact gives_nil_of_next hsplit (gives_of_drained rfl hd)

/-- Behind the schema the cut falls into one of the batch frames or into the end frame. -/
theorem gives_of_cut_batches {batches : List Split} (hs : ∀ s ∈ batches, s.Shaped schema)
    (hl : ∀ s ∈ batches, (payload s).length ≤ maxPayload)
    (h : cut <+: batches.flatMap batchFrame ++ endFrame)
    (hne : cut ≠ batches.flatMap batchFrame ++ endFrame) :
    ∃ delivered, delivered <+: batches.map (·.delivered schema) ∧
      (behind schema cut).Gives delivered (.error .truncated) := by
  induction batches generalizing cut with
  | nil => exact ⟨[], List.nil_prefix, gives_of_cut rfl (Nat.zero_le _) rfl h hne⟩
  | cons s batches ih =>
    obtain ⟨hs, hsrest⟩ := List.forall_mem_cons.mp hs
    obtain ⟨hl, hlrest⟩ := List.forall_mem_cons.mp hl
    rw [List.flatMap_cons, List.append_assoc] at h hne
    rcases cut_append h with ⟨hframe, hshort⟩ | ⟨rest, rfl, hrest⟩
    · exact ⟨[], List.nil_prefix, gives_of_cut rfl hl rfl hframe hshort⟩
    · obtain ⟨delivered, hpre, hgives⟩ := ih hsrest hlrest hrest fun he => hne (by rw [he])
      have hfirst := gives_batches (List.forall_mem_singleton.mpr hs)
        (List.forall_mem_singleton.mpr hl) hgives
      rw [List.flatMap_singleton] at hfirst
      exact ⟨s.delivered schema :: delivered, (List.prefix_cons_inj _).mpr hpre, hfirst⟩

theorem gives_of_cut_stream {batches : List Split} (hs : ∀ s ∈ batches, s.Shaped schema)
    (hfit : Fits maxPayload schema batches) (h : cut <+: stream schema batches)
    (hne : cut ≠ stream schema batches) :
    ∃ delivered, delivered <+: batches.map (·.delivered schema) ∧
      (ofBytes cut).Gives delivered (.error .truncated) ∧
      ((ofBytes cut).readSchema.1 = .ok schema ∨
        (ofBytes cut).readSchema.1 = .error .truncated) := by
  rcases cut_append h with ⟨hframe, hshort⟩ | ⟨rest, rfl, hrest⟩
  · refine ⟨[], List.nil_prefix, gives_of_cut rfl hfit.schema rfl hframe hshort, .inr ?_⟩
    rw [readSchema_cut hfit.schema rfl hframe hshort rfl]
  · obtain ⟨delivered, hpre, hgives⟩ := gives_of_cut_batches hs hfit.batches hrest fun he =>
      hne (by rw [he, stream])
    refine ⟨delivered, hpre, fun n => ?_, .inl ?_⟩
    · exact answers_congr (readSplit_schemaFrame hfit.schema rest) _ ▸ hgives n
    · rw [readSchema_schemaFrame rest hfit.schema]

/-- A stream that was cut anywhere gives the first of its batches unchanged, never its end, and is
refused as a whole. -/
theorem cut_shows_truncated {batchRows : Nat} {splits : List Split} {written : Written}
    (hw : writeAll batchRows schema splits = .ok written)
    (hfit : Fits maxPayload schema (batchesOf batchRows (taken schema splits)))
    (h : cut <+: written.bytes) (hne : cut ≠ written.bytes) :
    ∃ whole delivered, (ofBytes written.bytes).Gives whole (.ok none) ∧ delivered <+: whole ∧
      (ofBytes cut).Gives delivered (.error .truncated) ∧
      ((ofBytes cut).readSchema.1 = .ok schema ∨ (ofBytes cut).readSchema.1 = .error .truncated) ∧
      (ofBytes cut).readSchema.2.Gives delivered (.error .truncated) ∧
      (ofBytes cut).readAll.1 = .error .truncated ∧
      decodeResults (Text.Base64.encode cut) = .error (.payload (.split .truncated)) := by
  rw [StreamWriter.writeAll_eq] at hw
  cases hw
  have hs : ∀ s ∈ batchesOf batchRows (taken schema splits), s.Shaped schema := fun s =>
    StreamWriter.batchesOf_shaped fun _ => StreamWriter.shaped_of_mem_taken
  obtain ⟨delivered, hpre, hgives, hschema⟩ := gives_of_cut_stream hs hfit h hne
  have hall : (ofBytes cut).readAll.1 = .error .truncated := by
    refine readAll_of_truncated hgives rfl fun t ht s hm => ?_
    obtain ⟨b, _, rfl⟩ := List.mem_map.mp (hpre.subset hm)
    rcases hschema with hok | hfail
    · obtain rfl : t = schema := Except.ok.inj (ht.symm.trans hok)
      exact b.shaped_delivered t
    · rw [hfail] at ht
      cases ht
  refine ⟨_, delivered, gives_stream hs hfit, hpre, hgives, hschema, hgives.readSchema rfl, hall, ?_⟩
  rw [decodeResults, Text.Base64.decode?_encode]
  simp only [hall]
  rfl

section Readings

/-! A stream of two batches, to which one more split was offered that does not fit the schema. -/

def readings : Split where
  schema := { columns := [⟨"t", .int32⟩] }
  rows := [{ values := [.int32 20] }, { values := [.int32 21] }]

def widened : Split where
  schema := { columns := [⟨"t", .int32⟩, ⟨"unit", .utf8⟩] }
  rows := [{ values := [.int32 68, .text "F"] }]

theorem batches_readings : batchesOf 1 (taken readings.schema [readings, widened]) =
    [{ readings with rows := readings.rows.take 1 }, { readings with rows := readings.rows.drop 1 }] := by
  have htaken : taken readings.schema [readings, widened] = [readings] := by
    simp [taken, Split.Shaped, readings, widened]
  have hone : batchesOf 1 [readings] = StreamWriter.batches readings 1 := List.append_nil _
  rw [htaken, hone]
  simp [StreamWriter.batches, StreamWriter.chunks, readings]

theorem fits_readings : Fits maxPayload readings.schema
    (batchesOf 1 (taken readings.schema [readings, widened])) := by
  rw [batches_readings]
  decide +kernel

theorem cut_shows_truncated_readings : ∃ written, writeAll 1 readings.schema [readings, widened] =
    .ok written ∧ 100 < written.bytes.length ∧
      ∃ whole delivered, (ofBytes written.bytes).Gives whole (.ok none) ∧ delivered <+: whole ∧
        (ofBytes (written.bytes.take 100)).Gives delivered (.error .truncated) ∧
        (ofBytes (written.bytes.take 100)).readAll.1 = .error .truncated := by
  have hw := StreamWriter.writeAll_eq 1 readings.schema [readings, widened]
  have hlong : 100 < (stream readings.schema
      (batchesOf 1 (taken readings.schema [readings, widened]))).length := by
    rw [batches_readings]
    simp only [stream, schemaFrame, batchFrame, endFrame, List.flatMap_cons, List.flatMap_nil,
      List.length_append, Frame.length_encode, Frame.headerLength]
    omega
  have hne : (stream readings.schema (batchesOf 1 (taken readings.schema [readings, widened]))).take
      100 ≠ stream readings.schema (batchesOf 1 (taken readings.schema [readings, widened])) := by
    intro he
    have hlen := congrArg List.length he
    rw [List.length_take] at hlen
    omega
  obtain ⟨whole, delivered, hwhole, hpre, hgives, _, _, hall, _⟩ :=
    cut_shows_truncated hw fits_readings (List.take_prefix 100 _) hne
  exact ⟨_, hw, hlong, whole, delivered, hwhole, hpre, hgives, hall⟩

end Readings
end StreamReader
end QueryCluster
