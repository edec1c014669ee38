import QueryCluster.Graph.Instruction
import QueryCluster.Proofs.Codec.Basic
import QueryCluster.Proofs.Text.Base64

/-!
# Nodes read back

An executor reads from an instruction the node that was written into it, with all of its expressions
whatever their depth, as long as the bytes of the node can be counted in a 64-bit word.
-/
namespace QueryCluster

open Codec

theorem Comparison.faithful : Faithful Comparison.encode Comparison.decode :=
  faithful_choice (fun c => by cases c <;> decide) Comparison.all_code fun _ => rfl

theorem AggregateFunction.faithful : Faithful AggregateFunction.encode AggregateFunction.decode :=
  faithful_choice (fun f => by cases f <;> decide) AggregateFunction.all_code fun _ => rfl

namespace Expr

theorem length_encode_pos (e : Expr) : 4 ≤ e.encode.length := by
  cases e <;> simp only [encode, List.length_append, length_encodeTag] <;> omega

/-- An expression is less deep than its bytes are long. -/
theorem reads_decodeWithin {depth : Nat} {e : Expr} (hdepth : e.encode.length ≤ depth)
    (h : e.encode.length < lengthLimit) : Reads (decodeWithin depth) e.encode e := by
  induction depth generalizing e with
  | zero =>
    have := e.length_encode_pos
    omega
  | succ depth ih =>
    cases e with
    | column name =>
      rw [encode, List.length_append] at h
      exact (reads_tag (n := 0) (by decide)).bind (faithful_text.reads name (by omega)).map
    | literal v =>
      rw [encode, List.length_append] at h
      exact (reads_tag (n := 1) (by decide)).bind (Value.faithful.reads v (by omega)).map
    | compare l op r =>
      simp only [encode, List.length_append, length_encodeTag] at hdepth h
      have hl := @ih l (by omega) (by omega)
      have hop := Comparison.faithful.reads op (by omega)
      have hr := @ih r (by omega) (by omega)
      rw [encode, List.append_assoc, List.append_assoc]
      exact (reads_tag (n := 2) (by decide)).bind (hl.bind (hop.bind hr.map))
    | and l r =>
      simp only [encode, List.length_append, length_encodeTag] at hdepth h
      have hl := @ih l (by omega) (by omega)
      have hr := @ih r (by omega) (by omega)
      rw [encode, List.append_assoc]
      exact (reads_tag (n := 3) (by decide)).bind (hl.bind hr.map)
    | or l r =>
      simp only [encode, List.length_append, length_encodeTag] at hdepth h
      have hl := @ih l (by omega) (by omega)
      have hr := @ih r (by omega) (by omega)
      rw [encode, List.append_assoc]
      exact (reads_tag (n := 4) (by decide)).bind (hl.bind hr.map)
    | not e =>
      simp only [encode, List.length_append, length_encodeTag] at hdepth h
      exact (reads_tag (n := 5) (by decide)).bind (@ih e (by omega) (by omega)).map
    | isNull e =>
      simp only [encode, List.length_append, length_encodeTag] at hdepth h
      exact (reads_tag (n := 6) (by decide)).bind (@ih e (by omega) (by omega)).map

theorem faithful : Faithful Expr.encode Expr.decode where
  pos e := by
    have := e.length_encode_pos
    omega
  reads e h rest := by
    rw [decode]
    exact reads_decodeWithin (by rw [List.length_append]; omega) h rest

end Expr

theorem SortItem.faithful : Faithful SortItem.encode SortItem.decode where
  pos i := by
    have := i.expr.length_encode_pos
    rw [SortItem.encode, List.length_append]
    omega
  reads i h := by
    rw [SortItem.encode, List.length_append] at h
    exact (Expr.faithful.reads i.expr (by omega)).bind
      (Direction.faithful.reads i.direction (by omega)).map

theorem NamedExpr.faithful : Faithful NamedExpr.encode NamedExpr.decode where
  pos e := by
    have := e.expr.length_encode_pos
    rw [NamedExpr.encode, List.length_append]
    omega
  reads e h := by
    rw [NamedExpr.encode, List.length_append] at h
    exact (Expr.faithful.reads e.expr (by omega)).bind (faithful_text.reads e.name (by omega)).map

theorem Aggregate.faithful : Faithful Aggregate.encode Aggregate.decode where
  pos a := by
    have := faithful_text.pos a.label
    rw [Aggregate.encode, List.length_append]
    omega
  reads a h := by
    rw [Aggregate.encode, List.length_append, List.length_append] at h
    rw [Aggregate.encode, List.append_assoc]
    exact (AggregateFunction.faithful.reads a.func (by omega)).bind
      ((faithful_text.option.reads a.column (by omega)).bind
        (faithful_text.reads a.label (by omega)).map)

theorem Location.faithful : Faithful Location.encode Location.decode where
  pos l := by
    have := faithful_text.pos l.name
    rw [Location.encode, List.length_append, List.length_append]
    omega
  reads l h := by
    rw [Location.encode, List.length_append, List.length_append] at h
    have hword : Reads (decodeWord 2) (encodeWord 2 l.port.toNat) l.port.toNat :=
      reads_word l.port.toNat_lt
    have hport := hword.map (f := fun n => (⟨l.name, l.host, UInt16.ofNat n⟩ : Location))
    rw [UInt16.ofNat_toNat] at hport
    rw [Location.encode, List.append_assoc]
    exact (faithful_text.reads l.name (by omega)).bind
      ((faithful_text.reads l.host (by omega)).bind hport)

theorem Partitioning.faithful : Faithful Partitioning.encode Partitioning.decode where
  pos p := by cases p <;> simp only [Partitioning.encode, List.length_append, length_encodeTag] <;> omega
  reads p h := by
    cases p with
    | single => exact (reads_tag (n := 0) (by decide)).bind (Reads.pure single)
    | oneToOne => exact (reads_tag (n := 1) (by decide)).bind (Reads.pure oneToOne)
    | roundRobin => exact (reads_tag (n := 2) (by decide)).bind (Reads.pure roundRobin)
    | hash keys =>
      rw [Partitioning.encode, List.length_append] at h
      exact (reads_tag (n := 3) (by decide)).bind (faithful_text.list.reads keys (by omega)).map

/-- The number of a partition, in eight bytes. -/
theorem faithful_partition : Faithful (fun n : UInt64 => encodeWord 8 n.toNat)
    (decodeWord 8 >>= fun n => pure (UInt64.ofNat n)) :=
  faithful_word (by decide) UInt64.toNat UInt64.ofNat Bytes.lt_capacity_eight fun _ => UInt64.ofNat_toNat

theorem PartitionScan.faithful : Faithful PartitionScan.encode PartitionScan.decode where
  pos s := by
    have := faithful_text.pos s.catalog
    simp only [PartitionScan.encode, List.length_append]
    omega
  reads s h := by
    simp only [PartitionScan.encode, List.length_append] at h
    simp only [PartitionScan.encode, List.append_assoc]
    exact (faithful_text.reads s.catalog (by omega)).bind
      ((faithful_text.reads s.schema (by omega)).bind
        ((faithful_text.reads s.table (by omega)).bind
          ((faithful_partition.list.reads s.partitions (by omega)).bind
            ((Schema.faithful.reads s.columns (by omega)).bind
              (Expr.faithful.list.reads s.filters (by omega)).map))))

namespace Operator

theorem faithful : Faithful Operator.encode Operator.decode where
  pos o := by cases o <;> simp only [encode, List.length_append, length_encodeTag] <;> omega
  reads o h := by
    cases o with
    | scan part =>
      rw [encode, List.length_append] at h
      exact (reads_tag (n := 0) (by decide)).bind (PartitionScan.faithful.reads part (by omega)).map
    | filter predicate =>
      rw [encode, List.length_append] at h
      exact (reads_tag (n := 1) (by decide)).bind (Expr.faithful.reads predicate (by omega)).map
    | project exprs =>
      rw [encode, List.length_append] at h
      exact (reads_tag (n := 2) (by decide)).bind (NamedExpr.faithful.list.reads exprs (by omega)).map
    | group keys aggregates emptyRow =>
      simp only [encode, List.length_append] at h
      simp only [encode, List.append_assoc]
      exact (reads_tag (n := 3) (by decide)).bind
        ((faithful_text.list.reads keys (by omega)).bind
          ((Aggregate.faithful.list.reads aggregates (by omega)).bind (reads_flag emptyRow).map))
    | localSort items =>
      rw [encode, List.length_append] at h
      exact (reads_tag (n := 4) (by decide)).bind (SortItem.faithful.list.reads items (by omega)).map
    | merge items =>
      rw [encode, List.length_append] at h
      exact (reads_tag (n := 5) (by decide)).bind (SortItem.faithful.list.reads items (by omega)).map
    | limit count =>
      have hcount := (reads_word (Bytes.lt_capacity_eight count)).map
        (f := fun n => limit (UInt64.ofNat n))
      rw [UInt64.ofNat_toNat] at hcount
      exact (reads_tag (n := 6) (by decide)).bind hcount
    | union => exact (reads_tag (n := 7) (by decide)).bind (Reads.pure union)

end Operator

theorem OperatorNode.faithful : Faithful OperatorNode.encode OperatorNode.decode where
  pos n := by
    have := Location.faithful.pos n.location
    simp only [OperatorNode.encode, List.length_append]
    omega
  reads n h := by
    simp only [OperatorNode.encode, List.length_append] at h
    simp only [OperatorNode.encode, List.append_assoc]
    exact (Location.faithful.reads n.location (by omega)).bind
      ((Location.faithful.list.reads n.inputs (by omega)).bind
        ((Location.faithful.list.reads n.outputs (by omega)).bind
          ((Partitioning.faithful.reads n.partitioning (by omega)).bind
            (Operator.faithful.reads n.operator (by omega)).map)))

/-- An instruction carries its node. -/
theorem Instruction.node_ofNode {n : OperatorNode} (h : n.encode.length < lengthLimit) (task : TaskId)
    (catalog schema : String) : (ofNode task catalog schema n).node = .ok n := by
  have hdecode : Codec.decode? OperatorNode.decode n.encode = some n :=
    (OperatorNode.faithful.reads n h).decode?
  simp only [node, ofNode, Text.Base64.decode?_encode, Option.bind_some, hdecode, if_true]

namespace Instruction

/-- Whatever the text of an instruction, only a node of the type beside it is read. -/
theorem type_of_node {i : Instruction} {n : OperatorNode} (h : i.node = .ok n) :
    n.operator.type = i.type := by
  rw [node] at h
  split at h
  · cases h
  · split at h
    · cases h
      assumption
    · cases h

/-- A type that was changed on the way shows, against the node that still stands in the text. -/
theorem node_retyped {n : OperatorNode} (h : n.encode.length < lengthLimit) (task : TaskId)
    (catalog schema : String) {t : OperatorType} (ht : n.operator.type ≠ t) :
    { ofNode task catalog schema n with type := t }.node =
      .error (.encoding (.wrongType t.name n.operator.type.name)) := by
  have hdecode : Codec.decode? OperatorNode.decode n.encode = some n :=
    (OperatorNode.faithful.reads n h).decode?
  simp only [node, ofNode, Text.Base64.decode?_encode, Option.bind_some, hdecode, if_neg ht]

/-- The node that was planned is the node that is delivered, every float with its bits. A changed
type is refused, and no instruction at all delivers a node of another type than the one it shows.
The bytes of a node are counted by a machine, in 64 bits. -/
theorem delivers_planned_node :
    (∀ (n : OperatorNode) (task : TaskId) (catalog schema : String),
      n.encode.length < lengthLimit →
        (ofNode task catalog schema n).task = task ∧
        (ofNode task catalog schema n).type = n.operator.type ∧
        (ofNode task catalog schema n).catalog = catalog ∧
        (ofNode task catalog schema n).schema = schema ∧
        (ofNode task catalog schema n).node = .ok n ∧
        ∀ t, n.operator.type ≠ t → { ofNode task catalog schema n with type := t }.node =
          .error (.encoding (.wrongType t.name n.operator.type.name))) ∧
      ∀ (i : Instruction) (n : OperatorNode), i.node = .ok n → n.operator.type = i.type :=
  ⟨fun _ task catalog schema h => ⟨rfl, rfl, rfl, rfl, node_ofNode h task catalog schema,
    fun _ => node_retyped h task catalog schema⟩, fun _ _ => type_of_node⟩

section Planned

/-- A filter that compares with floats of both widths that are no numbers. -/
def oddFilter : OperatorNode where
  location := ⟨"müller", "10.0.0.7", 9001⟩
  inputs := [⟨"reader", "10.0.0.8", 9002⟩, ⟨"", "::1", 0⟩]
  outputs := [⟨"root", "10.0.0.9", 65535⟩]
  partitioning := .hash ["größe", ""]
  operator := .filter (.not (.and
    (.compare (.column "größe") .lt (.literal (.float64 ⟨0x7FF8000000000001⟩)))
    (.or (.isNull (.literal (.float32 ⟨0xFFC00001⟩))) (.literal (.bytes [0, 255])))))

theorem delivers_planned_node_oddFilter :
    (ofNode 9 "c" "s" oddFilter).node = .ok oddFilter ∧
      { ofNode 9 "c" "s" oddFilter with type := .limit }.node =
        .error (.encoding (.wrongType "Limit" "Filter")) ∧
      oddFilter.operator.type = (ofNode 9 "c" "s" oddFilter).type := by
  have hsmall : oddFilter.encode.length < lengthLimit := by decide +kernel
  obtain ⟨-, -, -, -, hnode, hretyped⟩ := delivers_planned_node.1 oddFilter 9 "c" "s" hsmall
  exact ⟨hnode, hretyped .limit (by decide), delivers_planned_node.2 _ oddFilter hnode⟩

end Planned

end Instruction
end QueryCluster
