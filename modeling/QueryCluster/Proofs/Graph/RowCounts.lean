import Mathlib.Data.List.Forall2
import QueryCluster.Proofs.Graph.Run
import QueryCluster.Proofs.Stream.Calls

/-!
# Rows counted at both ends

No number of rows is sent with a batch. A reader takes it from the first column, or from the first key if
there is no column. Under a schema that has either, as many rows arrive as the writer counted, and a node
whose rows are sent on is read as a node whose rows are kept. Under a schema with neither, the writer counts
its rows and not one of them arrives.
-/
namespace QueryCluster

open StreamWriter (Fits Written writeAll batchesOf batches stream taken)

theorem countRows_delivered (schema : Schema) (splits : List Split) :
    countRows (splits.map (·.delivered schema)) = if schema.Counts then countRows splits else 0 := by
  induction splits with
  | nil => simp [countRows]
  | cons s splits ih =>
    rw [List.map_cons, countRows, countRows, ih, s.rowCount_delivered]
    split <;> rfl

variable {schema : Schema} {batchRows : Nat}

theorem countRows_batchesOf (batchRows : Nat) (splits : List Split) :
    countRows (batchesOf batchRows splits) = countRows splits := by
  rw [← length_rowsOf, StreamWriter.rowsOf_batchesOf, length_rowsOf]

/-- How many rows a reader gets of those that a writer counted. -/
theorem rows_of_written {splits : List Split} {written : Written}
    (hw : writeAll batchRows schema splits = .ok written)
    (hfit : Fits maxPayload schema (batchesOf batchRows (taken schema splits))) :
    written.writer.rowsWritten = countRows (taken schema splits) ∧
      ∃ delivered, (StreamReader.ofBytes written.bytes).Gives delivered (.ok none) ∧
        countRows delivered = if schema.Counts then written.writer.rowsWritten else 0 := by
  rw [StreamWriter.writeAll_eq] at hw
  cases hw
  have hs : ∀ s ∈ batchesOf batchRows (taken schema splits), s.Shaped schema := fun s =>
    StreamWriter.batchesOf_shaped fun _ => StreamWriter.shaped_of_mem_taken
  refine ⟨rfl, _, StreamReader.gives_stream hs hfit, ?_⟩
  rw [countRows_delivered, countRows_batchesOf]

/-! ## Sent on instead of kept -/

namespace Router

theorem schema_share {r : Router} {s t : Split} {i : Nat} (h : t ∈ r.share s i) : t.schema = s.schema := by
  cases hp : r.partitioning <;> simp only [share, hp] at h
  case hash =>
    rw [mem_unlessEmpty h]
    rfl
  all_goals
    split at h
    · rw [mem_unlessEmpty h]
    · cases h

theorem schema_shares {r : Router} {splits : List Split} {t : Split} {i : Nat}
    (h : t ∈ r.shares splits i) : ∃ s ∈ splits, t.schema = s.schema := by
  induction splits generalizing r with
  | nil => cases h
  | cons s splits ih =>
    rcases List.mem_append.mp h with h | h
    · exact ⟨s, List.mem_cons_self, schema_share h⟩
    · obtain ⟨u, hu, heq⟩ := ih h
      exact ⟨u, List.mem_cons_of_mem s hu, heq⟩

end Router

namespace Emission

variable {e : Emission} {outputs : Nat} {partitioning : Partitioning}

theorem batchesTo_shaped {keyColumns : List Nat} (hs : e.schema = some schema)
    (hc : Router.columnsOf partitioning schema = .ok keyColumns)
    (hshaped : ∀ s ∈ e.splits, s.Shaped schema) {i : Nat} {b : Split}
    (hb : b ∈ e.batchesTo outputs partitioning batchRows i) : b.Shaped schema := by
  rw [batchesTo_eq hs hc] at hb
  obtain ⟨t, ht, hb⟩ := List.mem_flatMap.mp hb
  obtain ⟨s, hs, heq⟩ := Router.schema_shares ht
  exact StreamWriter.batches_shaped (by rw [Split.Shaped, heq]; exact hshaped s hs) hb

theorem countRows_batchesTo {keyColumns : List Nat} (hs : e.schema = some schema)
    (hc : Router.columnsOf partitioning schema = .ok keyColumns) (ho : 0 < outputs) :
    countRows ((List.range outputs).flatMap fun i => e.batchesTo outputs partitioning batchRows i) =
      countRows e.splits := by
  have hperm := (@batchesTo_values_perm schema outputs batchRows partitioning e keyColumns hs hc ho).length_eq
  rw [← List.map_flatMap, List.length_map, List.length_map, length_rowsOf] at hperm
  rw [← hperm, ← length_rowsOf, rowsOf, List.flatMap_assoc]
  rfl

/-- All outputs of a run together give their readers as many rows as a root would have kept. -/
theorem sent_as_kept {stats sentStats : Stats} {all : Split} {r : Router}
    (hkept : e.collect = .ok (stats, all)) (hcounts : all.schema.Counts) (ho : 0 < outputs)
    (hsent : e.send (.start outputs partitioning batchRows) = (.ok sentStats, r))
    (hfit : ∀ i < outputs, Fits maxPayload all.schema (e.batchesTo outputs partitioning batchRows i)) :
    ∃ received : List (List Split),
      List.Forall₂ (fun bs splits => (StreamReader.ofBytes bs).Gives splits (.ok none))
        (r.outputs.map (·.sent)) received ∧ countRows received.flatten = all.rowCount := by
  obtain ⟨_, hs, hrows, hshaped⟩ := collect_ok hkept
  obtain ⟨_, ⟨keyColumns, hc⟩, hstreams⟩ := send_ok hs ho hsent
  refine ⟨(List.range outputs).map fun i =>
    (e.batchesTo outputs partitioning batchRows i).map (·.delivered all.schema), ?_, ?_⟩
  · rw [hstreams, List.forall₂_map_left_iff, List.forall₂_map_right_iff, List.forall₂_same]
    exact fun i hi => StreamReader.gives_stream (fun b hb => batchesTo_shaped hs hc hshaped hb)
      (hfit i (List.mem_range.mp hi))
  · rw [← List.flatMap_def, ← List.map_flatMap, countRows_delivered, if_pos hcounts,
      countRows_batchesTo hs hc ho, Split.rowCount, hrows, length_rowsOf]

end Emission

/-- Under a schema with a column or a key no row is lost on the wire. -/
theorem no_row_lost (hcounts : schema.Counts) (batchRows : Nat) :
    (∀ splits written, writeAll batchRows schema splits = .ok written →
      Fits maxPayload schema (batchesOf batchRows (taken schema splits)) →
      written.writer.rowsWritten = countRows (taken schema splits) ∧
        ∃ delivered, (StreamReader.ofBytes written.bytes).Gives delivered (.ok none) ∧
          countRows delivered = written.writer.rowsWritten) ∧
    ∀ (e : Emission) stats all outputs partitioning sentStats r, e.collect = .ok (stats, all) →
      all.schema = schema → 0 < outputs →
      e.send (.start outputs partitioning batchRows) = (.ok sentStats, r) →
      (∀ i < outputs, Fits maxPayload schema (e.batchesTo outputs partitioning batchRows i)) →
      ∃ received : List (List Split),
        List.Forall₂ (fun bs splits => (StreamReader.ofBytes bs).Gives splits (.ok none))
          (r.outputs.map (·.sent)) received ∧ countRows received.flatten = all.rowCount := by
  constructor
  · intro splits written hw hfit
    obtain ⟨hcount, delivered, hgives, hrows⟩ := rows_of_written hw hfit
    exact ⟨hcount, delivered, hgives, hrows.trans (if_pos hcounts)⟩
  · rintro e stats all outputs partitioning sentStats r hkept rfl ho hsent hfit
    exact Emission.sent_as_kept hkept hcounts ho hsent hfit

section Tickets

def tickets (ns : List Int64) : Split where
  schema := { columns := [⟨"n", .int64⟩] }
  rows := ns.map fun n => { values := [.int64 n] }

def ticketRun : Emission where
  schema := some (tickets []).schema
  splits := [tickets [1, 2], tickets [3]]
  outcome := .ok ⟨3, 3⟩

theorem batches_tickets {ns : List Int64} (hpos : 0 < ns.length) (hle : ns.length ≤ 4) :
    batches (tickets ns) 4 = [tickets ns] :=
  StreamWriter.batches_of_le (by simpa [tickets, Split.rowCount] using hpos)
    (by simpa [tickets, Split.rowCount] using hle)

theorem batchesTo_ticketRun {i : Nat} (h : i < 2) :
    ticketRun.batchesTo 2 .roundRobin 4 i = [if i = 0 then tickets [1, 2] else tickets [3]] := by
  rw [Emission.batchesTo_eq rfl rfl]
  match i, h with
  | 0, _ => exact (List.append_nil _).trans (batches_tickets (by decide) (by decide))
  | 1, _ => exact (List.append_nil _).trans (batches_tickets (by decide) (by decide))

theorem no_row_lost_tickets :
    (∃ written delivered, writeAll 4 (tickets []).schema [tickets [1, 2], tickets [3]] = .ok written ∧
      written.writer.rowsWritten = 3 ∧ countRows delivered = 3 ∧
      (StreamReader.ofBytes written.bytes).Gives delivered (.ok none)) ∧
    ∃ r received, ticketRun.send (.start 2 .roundRobin 4) = (.ok ⟨3, 3⟩, r) ∧
      List.Forall₂ (fun bs splits => (StreamReader.ofBytes bs).Gives splits (.ok none))
        (r.outputs.map (·.sent)) received ∧ countRows received.flatten = 3 := by
  have hcounts : (tickets []).schema.Counts := by decide
  constructor
  · have hfit : Fits maxPayload (tickets []).schema
        (batchesOf 4 (taken (tickets []).schema [tickets [1, 2], tickets [3]])) := by
      have hwhole : batchesOf 4 [tickets [1, 2], tickets [3]] = [tickets [1, 2], tickets [3]] := by
        change batches (tickets [1, 2]) 4 ++ (batches (tickets [3]) 4 ++ []) = _
        rw [batches_tickets (by decide) (by decide), batches_tickets (by decide) (by decide)]
        rfl
      rw [StreamWriter.taken_of_shaped (by simp [Split.Shaped, tickets]), hwhole]
      decide +kernel
    obtain ⟨_, delivered, hgives, hrows⟩ := (no_row_lost hcounts 4).1 _ _
      (StreamWriter.writeAll_eq 4 (tickets []).schema [tickets [1, 2], tickets [3]]) hfit
    exact ⟨_, delivered, StreamWriter.writeAll_eq _ _ _, rfl, hrows, hgives⟩
  · have hkept : ticketRun.collect = .ok (⟨3, 3⟩, tickets [1, 2, 3]) := by rfl
    have hsent : ticketRun.send (.start 2 .roundRobin 4) =
        (.ok ⟨3, 3⟩, (ticketRun.send (.start 2 .roundRobin 4)).2) := by rfl
    obtain ⟨received, hgives, hrows⟩ := (no_row_lost hcounts 4).2 ticketRun _ _ 2 .roundRobin _ _ hkept rfl
      (by decide) hsent fun i hi => by
        rw [batchesTo_ticketRun hi]
        split <;> decide +kernel
    exact ⟨_, received, hsent, hgives, hrows⟩

end Tickets

section Bare

/-! Without a column and without a key the writer counts three rows, and none arrives. -/

def bare : Split where
  schema := { columns := [] }
  rows := List.replicate 3 { values := [] }

theorem rows_lost_without_columns :
    [[], [], []].foldlM Split.push { schema := { columns := [] } } = .ok bare ∧
      ∃ written delivered, writeAll 1024 bare.schema [bare] = .ok written ∧
        (StreamReader.ofBytes written.bytes).Gives delivered (.ok none) ∧
        written.writer.rowsWritten = 3 ∧ countRows delivered = 0 := by
  have hw := StreamWriter.writeAll_eq 1024 bare.schema [bare]
  have hwhole : batchesOf 1024 (taken bare.schema [bare]) = [bare] := by
    rw [StreamWriter.taken_of_shaped (by simp [Split.Shaped])]
    exact (List.append_nil _).trans (StreamWriter.batches_of_le (by decide) (by decide))
  have hfit : Fits maxPayload bare.schema (batchesOf 1024 (taken bare.schema [bare])) := by
    rw [hwhole]
    decide +kernel
  obtain ⟨_, delivered, hgives, hrows⟩ := rows_of_written hw hfit
  exact ⟨rfl, _, delivered, hw, hgives, rfl, hrows⟩

end Bare
end QueryCluster
