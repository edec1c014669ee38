import Mathlib.Data.List.Infix
import QueryCluster.Executor.Slot
import QueryCluster.Proofs.Graph.Run
import QueryCluster.Proofs.Operator.Faults
import QueryCluster.Proofs.Stream.Arriving

/-!
# What is sent before the end

A node ends its streams only when its operator has ended well and all rows are written. Until then, and
for ever if it fails, each output holds whole frames in front of the end frame: nothing at all, or the schema
and the first few batches. Whoever reads from it meets a fault.
-/
namespace QueryCluster

open Codec (lengthLimit)
open StreamWriter (schemaFrame batchFrame endFrame batches stream payload Fits)

namespace StreamWriter

/-- A stream that was begun, perhaps, and not ended. -/
def Begun (schema : Schema) (batches : List Split) (bs : Bytes) : Prop :=
  bs = [] ∨ ∃ front, front <+: batches ∧ bs = schemaFrame schema ++ front.flatMap batchFrame

variable {schema : Schema} {batches : List Split} {bs : Bytes}

theorem Begun.isPrefix (h : Begun schema batches bs) : bs <+: stream schema batches := by
  rcases h with rfl | ⟨front, hfront, rfl⟩
  · exact List.nil_prefix
  · rw [stream, List.prefix_append_right_inj]
    exact (hfront.flatMap batchFrame).trans (List.prefix_append _ _)

theorem length_endFrame : 0 < endFrame.length := by
  rw [endFrame, Frame.length_encode, Frame.headerLength]
  omega

theorem Begun.length_lt (h : Begun schema batches bs) : bs.length < (stream schema batches).length := by
  have hend := length_endFrame
  rcases h with rfl | ⟨front, hfront, rfl⟩
  · rw [stream, List.length_append, List.length_append]
    exact Nat.lt_of_lt_of_le hend (by omega)
  · have hlen := (hfront.flatMap batchFrame).length_le
    rw [stream, List.length_append, List.length_append, List.length_append]
    omega

/-- Bytes that are whole frames, none of which ends a stream. -/
def Endless (bs : Bytes) : Prop :=
  ∃ frames : List Frame, bs = frames.flatMap Frame.encode ∧ ∀ f ∈ frames, f.kind ≠ .finish

theorem Begun.endless (h : Begun schema batches bs) : Endless bs := by
  rcases h with rfl | ⟨front, _, rfl⟩
  · exact ⟨[], rfl, by simp⟩
  · refine ⟨⟨.metadata, schema.encode⟩ :: front.map fun s => ⟨.batch, payload s⟩, ?_, ?_⟩
    · rw [List.flatMap_cons, List.flatMap_map]
      rfl
    · simp

/-- Bytes of a stream that do not reach its end. -/
def Unended (bs : Bytes) : Prop := ∃ schema batches, Fits (lengthLimit - 1) schema batches ∧
  bs <+: stream schema batches ∧ bs.length < (stream schema batches).length

theorem unended_nil : Unended [] := by
  refine ⟨⟨[], []⟩, [], by decide +kernel, List.nil_prefix, ?_⟩
  exact Begun.length_lt (.inl rfl)

theorem Begun.unended (h : Begun schema batches bs) (hfit : Fits (lengthLimit - 1) schema batches) :
    Unended bs := ⟨schema, batches, hfit, h.isPrefix, h.length_lt⟩

theorem Unended.of_isPrefix (h : Unended bs) {front : Bytes} (hfront : front <+: bs) : Unended front := by
  obtain ⟨schema, batches, hfit, hpre, hlt⟩ := h
  exact ⟨schema, batches, hfit, hfront.trans hpre, Nat.lt_of_le_of_lt hfront.length_le hlt⟩

/-- Whatever arrives of an unended stream, its feed does not end. -/
theorem Unended.not_ended (h : Unended bs) {source : Source} (hs : source.bytes <+: bs) :
    ¬ ∃ t, (Feed.ofStream { source }).Ended t := by
  obtain ⟨schema, batches, hfit, hpre, hlt⟩ := h
  intro hended
  have hwhole := Feed.ofStream_ended hfit (hs.trans hpre) hended
  have := hs.length_le
  rw [hwhole] at this
  omega

end StreamWriter

namespace Emission

open StreamWriter (Begun)

variable {schema : Schema} {outputs batchRows : Nat} {partitioning : Partitioning} {e : Emission}

/-- Where opening the outputs fails, nothing but the schema has been sent to any of them: it fails
before the first, or at some output that leaves the rest unopened. -/
theorem writeSchema_refused {f : OperatorError} {r : Router}
    (h : (Router.start outputs partitioning batchRows).writeSchema schema = (some f, r)) :
    ∃ g : Nat → Output, r.outputs = (List.range' 0 outputs).map g ∧
      ∀ i, (g i).sent = [] ∨ (g i).sent = schemaFrame schema := by
  rw [Router.writeSchema] at h
  rcases hc : Router.columnsOf (Router.start outputs partitioning batchRows).partitioning schema with
    f' | keyColumns
  · rw [hc] at h
    cases h
    exact ⟨_, Router.start_outputs outputs batchRows partitioning, fun _ => .inl rfl⟩
  · rw [hc] at h
    obtain ⟨g, houtputs, hg⟩ := Router.onOutputs_held
      (r := Router.opened outputs partitioning batchRows keyColumns)
      (fun _ => .written schema (max batchRows 1) []) (fun _ _ => Router.send_schema)
      (Router.start_outputs outputs batchRows partitioning) h
    refine ⟨g, houtputs, fun i => (hg i).imp (congrArg Output.sent) fun hi => ?_⟩
    rw [hi]
    exact List.append_nil _

/-- Wherever the writing ends, each output holds the beginning of its stream. -/
theorem write_begun (hs : e.schema = some schema) (ho : 0 < outputs) :
    ∃ bytes : Nat → Bytes,
      (e.write (.start outputs partitioning batchRows)).2.outputs.map (·.sent) =
        (List.range outputs).map bytes ∧
      ∀ i, Begun schema (e.batchesTo outputs partitioning batchRows i) (bytes i) := by
  rcases hw : (Router.start outputs partitioning batchRows).writeSchema schema with ⟨_ | f, r⟩
  · -- all outputs are open, so each has its schema and the batches of the splits that it was given
    obtain ⟨keyColumns, hc, rfl⟩ := Router.writeSchema_ok hw
    rcases hss : ((Router.opened outputs partitioning batchRows keyColumns).wrote schema
      (max batchRows 1) outputs fun _ => []).writeSplits e.splits with ⟨fault, r⟩
    have hwritten : ((Router.opened outputs partitioning batchRows keyColumns).wrote schema
        (max batchRows 1) (Router.opened outputs partitioning batchRows keyColumns).outputs.length
        fun _ => []).writeSplits e.splits = (fault, r) := by
      rw [Router.length_opened]
      exact hss
    obtain ⟨held, houtputs, hpre⟩ := Router.writeSplits_held (by rwa [Router.length_opened]) hwritten
    rw [Router.length_opened] at houtputs
    refine ⟨fun i => schemaFrame schema ++
      ((held i).flatMap (batches · (max batchRows 1))).flatMap batchFrame, ?_, fun i => ?_⟩
    · simp only [write, hs, hw, hss, houtputs, List.map_map, List.range_eq_range']
      rfl
    · rw [batchesTo_eq hs hc]
      exact .inr ⟨_, (hpre i).flatMap _, rfl⟩
  · obtain ⟨g, houtputs, hg⟩ := writeSchema_refused hw
    refine ⟨fun i => (g i).sent, ?_, fun i => (hg i).imp id fun hi => ?_⟩
    · simp only [write, hs, hw, houtputs, List.map_map, List.range_eq_range']
      rfl
    · exact ⟨[], List.nil_prefix, hi.trans (List.append_nil _).symm⟩

/-- A run that is not sent well leaves behind what was written. -/
theorem send_failed (hopen : e.schema = none → ∃ f, e.outcome = .error f) (ho : 0 < outputs)
    {f : OperatorError} {r : Router}
    (h : e.send (.start outputs partitioning batchRows) = (.error f, r)) :
    r = (e.write (.start outputs partitioning batchRows)).2 := by
  rw [send_eq] at h
  rcases hw : e.write (.start outputs partitioning batchRows) with ⟨_ | f', r₁⟩
  swap
  · rw [hw] at h
    cases h
    rfl
  rcases hout : e.outcome with f' | stats
  · rw [hw, hout] at h
    cases h
    rfl
  -- a run that went well has opened its outputs, and these can all be ended
  rcases hs : e.schema with _ | schema
  · obtain ⟨f', hf'⟩ := hopen hs
    cases hf'.symm.trans hout
  · rw [hw, hout] at h
    simp only [(write_ok hs ho hw).2] at h
    cases h

end Emission

namespace OperatorNode

open StreamWriter (Begun Endless Unended)

variable {w : Workplace} {arrival : List Nat} {inputs : List Feed} {outputs : Nat} {n : OperatorNode}

/-- What a node has written to its outputs when all that its operator writes is written and none of
its streams has ended. -/
def draft (w : Workplace) (arrival : List Nat) (inputs : List Feed) (outputs : Nat)
    (n : OperatorNode) : List Bytes :=
  if n.isRoot then []
  else ((n.operator.run w arrival inputs).write (n.router w.batchRows outputs)).2.outputs.map (·.sent)

theorem draft_begun (ho : 0 < outputs) {i : Nat} {bs : Bytes}
    (h : (n.draft w arrival inputs outputs)[i]? = some bs) :
    bs = [] ∨ ∃ schema, (n.operator.run w arrival inputs).schema = some schema ∧ i < outputs ∧
      Begun schema ((n.operator.run w arrival inputs).batchesTo outputs n.partitioning w.batchRows i)
        bs := by
  rw [draft] at h
  by_cases hr : n.isRoot
  · rw [if_pos hr] at h
    cases h
  rw [if_neg hr, router] at h
  rcases hs : (n.operator.run w arrival inputs).schema with _ | schema
  · obtain ⟨e, he⟩ := Operator.run_unopened hs
    have hstart : ((Emission.failed e).write (.start outputs n.partitioning w.batchRows)).2 =
        .start outputs n.partitioning w.batchRows := rfl
    rw [he, hstart, Router.start_outputs, List.map_map] at h
    obtain ⟨_, _, rfl⟩ := List.mem_map.mp (List.mem_of_getElem? h)
    exact .inl rfl
  · obtain ⟨bytes, hbytes, hbegun⟩ :=
      @Emission.write_begun schema outputs w.batchRows n.partitioning _ hs ho
    rw [hbytes] at h
    obtain ⟨hi, rfl⟩ := of_getElem?_map_range h
    exact .inr ⟨schema, rfl, hi, hbegun i⟩

/-- A node that fails leaves its outputs as its writing left them. -/
theorem sent_of_error (ho : 0 < outputs) {e : OperatorError}
    (h : (n.execute w arrival inputs outputs).outcome = .error e) :
    (n.execute w arrival inputs outputs).sent = n.draft w arrival inputs outputs := by
  rw [execute] at h ⊢
  rw [draft]
  by_cases hr : n.isRoot
  · simp only [hr, if_true]
  · simp only [hr] at h ⊢
    rcases hs : (n.operator.run w arrival inputs).send (n.router w.batchRows outputs) with ⟨_ | _, r⟩
    · have hopen : (n.operator.run w arrival inputs).schema = none →
          ∃ f, (n.operator.run w arrival inputs).outcome = .error f := fun hnone => by
        obtain ⟨f, hf⟩ := Operator.run_unopened hnone
        exact ⟨f, by rw [hf, Emission.failed]⟩
      rw [Emission.send_failed hopen ho hs]
      rfl
    · rw [hs] at h
      cases h

/-- A node that fails ends none of its streams. -/
theorem endless_of_error {e : OperatorError}
    (h : (n.execute w arrival inputs n.outputs.length).outcome = .error e) :
    ∀ bs ∈ (n.execute w arrival inputs n.outputs.length).sent, Endless bs := by
  intro bs hbs
  rcases Nat.eq_zero_or_pos n.outputs.length with hnone | ho
  · have hroot : n.isRoot := List.isEmpty_iff_length_eq_zero.mpr hnone
    simp only [execute, hroot, if_true] at hbs
    cases hbs
  · obtain ⟨i, hi⟩ := List.mem_iff_getElem?.mp hbs
    rw [sent_of_error ho h] at hi
    rcases draft_begun ho hi with rfl | ⟨_, _, _, hbegun⟩
    · exact ⟨[], rfl, by simp⟩
    · exact hbegun.endless

/-- What is written before the end is no whole stream. -/
theorem draft_unended (ho : 0 < outputs)
    (hfit : n.FramesWithin (lengthLimit - 1) w arrival inputs outputs) {i : Nat} {bs : Bytes}
    (h : (n.draft w arrival inputs outputs)[i]? = some bs) : Unended bs := by
  rcases draft_begun ho h with rfl | ⟨schema, hs, hi, hbegun⟩
  · exact StreamWriter.unended_nil
  · exact hbegun.unended (hfit schema hs i hi)

/-- A node that ends well has seen all of its inputs end. -/
theorem ended_of_execute {x : Stats × Option Split}
    (h : (n.execute w arrival inputs outputs).outcome = .ok x) :
    ∀ f ∈ inputs, ∃ schema, f.Ended schema :=
  Operator.ended_of_run (outcome_of_execute h)

theorem execute_of_broken (w : Workplace) (arrival : List Nat) (outputs : Nat) (n : OperatorNode)
    (h : ∃ f ∈ inputs, f.Broken) : ∃ e, (n.execute w arrival inputs outputs).outcome = .error e := by
  obtain ⟨f, hf, hbroken⟩ := h
  rcases hx : (n.execute w arrival inputs outputs).outcome with e | x
  · exact ⟨e, rfl⟩
  · exact absurd (ended_of_execute hx f hf) (Feed.broken_iff.mp hbroken)

end OperatorNode
end QueryCluster
