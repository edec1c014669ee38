import QueryCluster.Proofs.Graph.InOrder
import QueryCluster.Proofs.Graph.Schemas

/-!
# The schemas of a plan at work

Whatever is on its way between the nodes of a typed plan is the beginning of a stream of typed rows, in
whatever order the nodes act. So every node reads the schema that it was typed with or none, no node fails
for a schema, and the rows that the root holds in the end have the schema of the plan.
-/
namespace QueryCluster

open Codec (lengthLimit)
open Plan (Joined)
open StreamWriter (stream Fits)

theorem Split.Conforms.delivered {schema : Schema} {s : Split} (h : s.Conforms schema) :
    (s.delivered schema).Conforms schema := by
  by_cases hc : schema.Counts
  · rw [h.under.delivered hc]
    exact ⟨h.schema_eq, h.rows⟩
  · exact ⟨rfl, by simp [Split.delivered, hc]⟩

theorem SplitError.OfWay.safe {e : SplitError} (h : e.OfWay) : ¬ (OperatorError.split e).OfSchema := by
  cases e with
  | shape fault => exact absurd rfl (h fault)
  | _ => exact id

/-- Nothing that arrived is no stream. -/
theorem Feed.ofStream_nil {source : Source} (h : source.bytes = []) :
    ∃ e, (ofStream { source }).schema = .error (.split e) ∧ e.OfWay := by
  have hpre : source.bytes <+: (⟨.metadata, []⟩ : Frame).encode ++ [] := h ▸ List.nil_prefix
  have hread := Frame.read_arriving ⟨.metadata, []⟩ (by decide) hpre
  rcases hread with ⟨rest, _, hbytes⟩ | ⟨rest, hread⟩ | ⟨e, rest, hread, he⟩
  · rw [h] at hbytes
    cases hbytes
  · refine ⟨.truncated, ?_, fun _ => by simp⟩
    simp only [ofStream, StreamReader.readSchema, hread]
    rfl
  · refine ⟨e, ?_, he⟩
    simp only [ofStream, StreamReader.readSchema, hread]
    rfl

namespace StreamWriter

/-- The beginning of a stream of conforming batches, or nothing yet. -/
def Carries (schema : Schema) (bs : Bytes) : Prop :=
  bs = [] ∨ ∃ batches, Fits (lengthLimit - 1) schema batches ∧ (∀ b ∈ batches, b.Conforms schema) ∧
    bs <+: stream schema batches

variable {schema : Schema} {bs front : Bytes}

theorem Carries.of_isPrefix (h : Carries schema bs) (hfront : front <+: bs) : Carries schema front := by
  rcases h with rfl | ⟨batches, hfit, hconforms, hpre⟩
  · exact .inl (List.prefix_nil.mp hfront)
  · exact .inr ⟨batches, hfit, hconforms, hfront.trans hpre⟩

/-- What arrives of such a stream reads as conforming splits. -/
theorem Carries.feed (h : Carries schema bs) {source : Source} (hs : source.bytes <+: bs) :
    (Feed.ofStream { source }).Conforms schema := by
  rcases h.of_isPrefix hs with hnone | ⟨batches, hfit, hconforms, hpre⟩
  · obtain ⟨e, he, hway⟩ := Feed.ofStream_nil hnone
    refine ⟨fun e' he' => ?_, fun s hs => ?_, fun s hs => ?_, fun s hs => ?_⟩
    · obtain rfl := Except.error.inj (he'.symm.trans he)
      exact hway.safe
    all_goals cases hs.symm.trans he
  · have harriving := Feed.ofStream_arriving hfit (fun b hb => (hconforms b hb).under.shaped) hpre
    refine ⟨fun e he => ?_, fun s hs => (harriving.opened s hs).1, fun s hs x hx => ?_, fun s hs e he => ?_⟩
    · obtain ⟨cause, rfl, hway⟩ := harriving.refused e he
      exact hway.safe
    · obtain ⟨b, hb, rfl⟩ := List.mem_map.mp ((harriving.opened s hs).2.1.subset hx)
      exact (hconforms b hb).delivered
    · obtain ⟨cause, rfl, hway⟩ := (harriving.opened s hs).2.2 e he
      exact hway.safe

end StreamWriter

open StreamWriter (Carries)

namespace OperatorNode

variable {w : Workplace} {arrival : List Nat} {inputs : List Feed} {outputs : Nat} {n : OperatorNode}
  {input output : Schema}

/-- What a typed node has written before the end. -/
theorem draft_carries (hn : n.Typed w.tables input output) (hf : ∀ f ∈ inputs, f.Conforms input)
    (hfit : n.FramesWithin (lengthLimit - 1) w arrival inputs outputs) (ho : 0 < outputs) {i : Nat}
    {bs : Bytes} (h : (n.draft w arrival inputs outputs)[i]? = some bs) : Carries output bs := by
  have he := Operator.run_conforms hn.operator arrival hf
  rcases draft_begun ho h with hnone | ⟨schema, hs, hi, hbegun⟩
  · exact .inl hnone
  · obtain rfl := he.schema_eq schema hs
    exact .inr ⟨_, hfit schema hs i hi, Emission.batchesTo_conforms he _ _ i _, hbegun.isPrefix⟩

/-- What a typed node has sent when it is through. -/
theorem sent_carries (hn : n.Typed w.tables input output) (hf : ∀ f ∈ inputs, f.Conforms input)
    (hfit : n.FramesWithin (lengthLimit - 1) w arrival inputs n.outputs.length)
    (ho : 0 < n.outputs.length) {i : Nat} {bs : Bytes}
    (h : (n.execute w arrival inputs n.outputs.length).sent[i]? = some bs) : Carries output bs := by
  rcases hx : (n.execute w arrival inputs n.outputs.length).outcome with e | x
  · rw [sent_of_error ho hx] at h
    exact draft_carries hn hf hfit ho h
  have he := Operator.run_conforms hn.operator arrival hf
  have hroot : n.isRoot = false :=
    List.isEmpty_eq_false_iff.mpr (List.ne_nil_of_length_pos ho)
  obtain ⟨stats, rows⟩ := x
  rcases hs : (n.operator.run w arrival inputs).schema with _ | schema
  · obtain ⟨e, hfailed⟩ := Operator.run_unopened hs
    have hok := outcome_of_execute hx
    rw [hfailed] at hok
    cases hok
  · obtain rfl := he.schema_eq schema hs
    rw [(execute_ok hroot ho hs hx).2] at h
    obtain ⟨hi, rfl⟩ := of_getElem?_map_range h
    exact .inr ⟨_, hfit schema hs i hi, Emission.batchesTo_conforms he _ _ i _, List.prefix_rfl⟩

end OperatorNode

namespace Post

variable {w : Workplace} {n : OperatorNode} {incoming : Location → Bytes} {p p' : Post}
  {input output : Schema}

theorem feeds_conform (hin : ∀ l ∈ n.inputs, Carries input (incoming l))
    (hp : ∀ l, (p.arrived l).bytes <+: incoming l) : ∀ f ∈ p.feeds n, f.Conforms input :=
  List.forall_mem_map.mpr fun l hl => (hin l hl).feed (hp l)

/-- Whatever a typed node does, it sends conforming batches. -/
theorem Acts.carries (hn : n.Typed w.tables input output) (hin : ∀ l ∈ n.inputs, Carries input (incoming l))
    (hp : ∀ l, (p.arrived l).bytes <+: incoming l) (hsent : ∀ l ∈ n.outputs, Carries output (p.sent l))
    (h : Acts w n incoming p p') : ∀ l ∈ n.outputs, Carries output (p'.sent l) := by
  have hfeeds := feeds_conform hin hp
  cases h with
  | start | receive | arrange => exact hsent
  | @write h hsized j k bs whole hl hdraft hbs =>
    intro l hmem
    rw [sent_writing]
    split
    · exact (OperatorNode.draft_carries hn hfeeds hsized (List.length_pos_of_mem hmem) hdraft).of_isPrefix hbs
    · exact hsent l hmem
  | @finish h hsized sent hdone hkept hothers =>
    intro l hmem
    obtain ⟨j, hj⟩ := List.mem_iff_getElem?.mp hmem
    exact OperatorNode.sent_carries hn hfeeds hsized (List.length_pos_of_mem hmem) (hdone j l hj)

end Post

namespace Traffic

variable {place : Location → Workplace} {nodes : List OperatorNode} {t t' : Traffic} {n : OperatorNode}
  {schemas : Location → Schema}

/-- All that is on its way conforms to the schemas of its senders. -/
def Conforms (schemas : Location → Schema) (nodes : List OperatorNode) (t : Traffic) : Prop :=
  ∀ n ∈ nodes, ∀ l ∈ n.outputs, Carries (schemas n.location) ((t n.location).sent l)

/-- What a node reads comes from nodes of the schema that it is typed with. -/
theorem Conforms.incoming {p : UInt64} {root : OperatorNode} (hj : Joined p nodes root)
    (ht : Conforms schemas nodes t) (hn : n ∈ nodes) {input : Schema}
    (hin : ∀ l ∈ n.inputs, schemas l = input) :
    ∀ l ∈ n.inputs, Carries input ((t l).sent n.location) := by
  intro l hl
  obtain ⟨m, hm, rfl⟩ := Plan.mem_placesOf.mp ((hj.inputs n hn).2 l hl)
  rw [← hin _ hl]
  exact ht m hm n.location ((hj.edges m hm n hn).mp hl)

theorem Conforms.step {p : UInt64} {root : OperatorNode} (hj : Joined p nodes root)
    (hfollows : ∀ n ∈ nodes, n.Follows (fun l => (place l).tables) schemas)
    (hs : Sound place nodes t) (ht : Conforms schemas nodes t) (h : Step place nodes t t') :
    Conforms schemas nodes t' := by
  cases h with
  | @act n p hn h =>
    obtain ⟨input, hin, htyped⟩ := hfollows n hn
    intro m hm
    -- only the node that acts sends anything
    by_cases hmn : m.location = n.location
    · obtain rfl := List.inj_on_of_nodup_map hj.places hm hn hmn
      rw [Function.update_self]
      exact h.carries htyped (ht.incoming hj hm hin) (hs.carried m.location) (ht m hm)
    · rw [Function.update_of_ne hmn]
      exact ht m hm

theorem Reachable.conforms {p : UInt64} {root : OperatorNode} (hj : Joined p nodes root)
    (hfollows : ∀ n ∈ nodes, n.Follows (fun l => (place l).tables) schemas)
    (h : Reachable place nodes t) : Conforms schemas nodes t := by
  induction h with
  | refl => exact fun n _ l _ => .inl rfl
  | tail hreach hstep ih => exact ih.step hj hfollows (Reachable.sound hj.places hreach) hstep

end Traffic

/-- The schemas of a plan are the schemas of its run. Where no keys are scanned and the tables hold what is
declared, no node fails for a schema at any time; and the rows that the root holds have the schema of the
plan and values of its types, which are those of the aggregates and of comparisons and logic. -/
theorem schemas_are_kept :
    (∀ (plan : Plan) (schema : Schema) (p : UInt64) (free : List Location) (g : Graph)
      (place : Location → Workplace) (t : Traffic), plan.scan.columns.keys = [] →
      plan.schema = .ok schema → (∀ l, plan.scan.Provided (place l).tables) → free.Nodup →
      (plan.bind p free).1 = .ok g → Traffic.Reachable place g.nodes t →
        (∀ n ∈ g.nodes, ∀ e, ((t n.location).execution (place n.location) n).outcome = .error e →
          ¬ e.OfSchema) ∧
        ∀ rows, (t g.root.location).Holds (place g.root.location) g.root rows →
          rows.schema = schema ∧ ∀ r ∈ rows.rows, r.Typed schema.columns) ∧
    (∀ (a : Aggregate) (s : Schema) (type : DataType), a.typeIn s = .ok type →
      ∃ argument, a.argumentType s = .ok argument ∧ a.func.Gives argument type) ∧
    ∀ (e : Expr) (s : Schema) (type : DataType), e.typeOf s = .ok type →
      (∃ name, e = .column name) ∨ (∃ v, e = .literal v) ∨ type = .boolean := by
  refine ⟨fun plan schema p free g place t hk hschema hprovided hfree hbind hreach => ?_,
    fun a s type h => ?_, fun e s type h => Expr.boolean_of_typeOf h⟩
  · have hj := Plan.bind_joined hfree hbind
    obtain ⟨schemas, hfollows, hroot⟩ := Plan.bind_follows hk hprovided hschema hfree hbind
    have hs := hreach.sound hj.places
    have hconforms := hreach.conforms hj hfollows
    have hfeeds : ∀ n ∈ g.nodes, ∃ input, n.Typed (place n.location).tables input (schemas n.location) ∧
        ∀ f ∈ (t n.location).feeds n, f.Conforms input := fun n hn => by
      obtain ⟨input, hin, htyped⟩ := hfollows n hn
      exact ⟨input, htyped, Post.feeds_conform (hconforms.incoming hj hn hin) (hs.carried n.location)⟩
    constructor
    · intro n hn e he
      obtain ⟨input, htyped, hf⟩ := hfeeds n hn
      exact OperatorNode.execute_safe htyped hf e he
    · intro rows hholds
      obtain ⟨_, stats, hx⟩ := hholds
      obtain ⟨input, htyped, hf⟩ := hfeeds g.root hj.last.1
      have hrows := OperatorNode.root_conforms htyped hf hx
      rw [hroot] at hrows
      exact ⟨hrows.schema_eq, fun r hr => (hrows.rows r hr).typed (Plan.keys_of_schemaOf hk hschema)⟩
  · obtain ⟨argument, hargument, h⟩ := bind_ok h
    refine ⟨argument, hargument, gives_of_typeOver? ?_⟩
    rcases ht : Aggregate.typeOver? a.func argument with _ | u
    · rw [ht] at h
      cases h
    · rw [ht] at h
      exact congrArg some (Except.ok.inj h)

/-- How often each number occurs and what it sums up to, the greatest number first. -/
def countsPlan : Plan where
  stages := [.sort [⟨.column "n", .descending⟩],
    .group ["n"] [⟨.count, none, "rows"⟩, ⟨.sum, some "n", "total"⟩]]
  scan := halvesScan

def countsHosts : List Location :=
  ["root", "sorter", "union", "worker", "scan"].map fun name => ⟨name, "host", 1⟩

def countsGraph : Graph := (countsPlan.bind 1 countsHosts).1.toOption.get (by decide +kernel)

def countsColumns : Schema := { columns := [⟨"n", .int64⟩, ⟨"rows", .int64⟩, ⟨"total", .int64⟩] }

theorem halves_provided : halvesScan.Provided halvesWorkplace.tables := by
  refine ⟨halves_stored, fun p e h => ?_⟩
  match p, h with
  | 0, h => cases h
  | 1, h => cases h
  | _ + 2, h =>
    cases h
    exact id

/-- Groups are counted and sorted by five nodes, with the keys of the order on the way between the last two;
the rows at the root are bare and as the plan has them. -/
theorem schemas_are_kept_counts :
    (∃ t rows, Traffic.Reachable (fun _ => halvesWorkplace) countsGraph.nodes t ∧
      (t countsGraph.root.location).Holds halvesWorkplace countsGraph.root rows ∧
      (∀ n ∈ countsGraph.nodes, ∀ e, ((t n.location).execution halvesWorkplace n).outcome = .error e →
        ¬ e.OfSchema) ∧
      rows.schema = countsColumns ∧ ∀ r ∈ rows.rows, r.Typed countsColumns.columns) ∧
    (∃ argument, (Aggregate.mk .sum (some "n") "total").argumentType halfColumns = .ok argument ∧
      AggregateFunction.Gives .sum argument .int64) ∧
    ((∃ name, Expr.isNull (.column "n") = .column name) ∨ (∃ v, Expr.isNull (.column "n") = .literal v) ∨
      DataType.boolean = .boolean) := by
  have hclear : (countsGraph.run halvesWorkplace fun _ => []).2.isNone ∧ ∀ n ∈ countsGraph.nodes,
      n.FramesWithin (lengthLimit - 1) halvesWorkplace []
        (n.feeds (countsGraph.run halvesWorkplace fun _ => []).1.wires) n.outputs.length := by
    decide +kernel
  have hbind : (countsPlan.bind 1 countsHosts).1 = .ok countsGraph := by decide +kernel
  obtain ⟨hreach, rows, hholds⟩ := Graph.run_reachable (by decide) hbind (Graph.run_clear hclear.1) hclear.2
  obtain ⟨hplans, haggregates, hexprs⟩ := schemas_are_kept
  obtain ⟨hsafe, hrows⟩ := hplans countsPlan countsColumns 1 countsHosts countsGraph (fun _ => halvesWorkplace)
    _ rfl (by decide +kernel) (fun _ => halves_provided) (by decide) hbind hreach
  obtain ⟨hschema, htyped⟩ := hrows rows hholds
  exact ⟨⟨_, rows, hreach, hholds, hsafe, hschema, htyped⟩,
    haggregates ⟨.sum, some "n", "total"⟩ halfColumns .int64 (by decide +kernel),
    hexprs (.isNull (.column "n")) halfColumns .boolean (by decide +kernel)⟩

end QueryCluster
