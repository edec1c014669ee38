import QueryCluster.Proofs.Graph.Edges
import QueryCluster.Proofs.Graph.TypedNodes

/-!
# Schemas along a graph

The schemas of the stages of a plan lie on the nodes of its graph: all nodes of a layer write the schema of
their stage, sorters write it with a key for each sort item, and whoever reads from a layer is typed for it.
-/
namespace QueryCluster

/-- A node that reads from nodes of one schema and is typed from this to its own. -/
def OperatorNode.Follows (tables : Location → TableStore) (schemas : Location → Schema)
    (n : OperatorNode) : Prop :=
  ∃ input, (∀ l ∈ n.inputs, schemas l = input) ∧ n.Typed (tables n.location) input (schemas n.location)

namespace Plan

/-- A partitioning finds its keys among some columns. -/
def Routed (partitioning : Partitioning) (schema : Schema) : Prop :=
  ∃ keyColumns, Router.columnsOf partitioning schema = .ok keyColumns

theorem routed_fanOut {partitioning : Partitioning} {schema : Schema} (h : Routed partitioning schema)
    (locations : List Location) : Routed (Targets.fanOut locations partitioning).partitioning schema := by
  rcases locations with _ | ⟨l, _ | ⟨k, rest⟩⟩
  · exact h
  · exact ⟨[], rfl⟩
  · exact h

/-- A graph for some targets whose last layer writes a schema. -/
def Laid (tables : Location → TableStore) (schema : Schema) (nodes : List OperatorNode)
    (tops : List Location) : Prop :=
  ∃ schemas : Location → Schema, (∀ n ∈ nodes, n.Follows tables schemas) ∧ ∀ l ∈ tops, schemas l = schema

section Layers

variable {tables : Location → TableStore} {schema output : Schema} {below targets : Targets}
  {pool layer : List Location} {a : Assembly} {inputs : Nat → List Location} {operator : Nat → Operator}

/-- A first layer reads from nobody. -/
theorem laid_first (hop : ∀ i l, (operator i).Typed (tables l) schema schema)
    (hroute : Routed targets.partitioning schema) :
    Laid tables schema (stageNodes layer targets (fun _ => []) operator) layer := by
  refine ⟨fun _ => schema, fun n hn => ?_, fun _ _ => rfl⟩
  obtain ⟨i, l, _, rfl⟩ := mem_stageNodes.mp hn
  exact ⟨schema, by simp [layerNode], hop i l, hroute⟩

/-- A layer on fresh executors that reads from the last layer below. -/
theorem Laid.add_layer (layer : List Location) (targets : Targets) (hlaid : Laid tables schema a.nodes a.tops)
    (ha : Assembled below pool a) (hfresh : (layer ++ pool).Nodup)
    (hinputs : ∀ i, ∀ l ∈ inputs i, l ∈ a.tops)
    (hop : ∀ i l, (operator i).Typed (tables l) schema output)
    (hroute : Routed targets.partitioning output) :
    Laid tables output (a.nodes ++ stageNodes layer targets inputs operator) layer := by
  obtain ⟨schemas, hnodes, htops⟩ := hlaid
  obtain ⟨_, _, hdisjoint⟩ := List.nodup_append.mp hfresh
  -- the new layer stands where no node below it does, so the schemas below stay
  obtain ⟨schemas', hnew, hold⟩ : ∃ schemas' : Location → Schema, (∀ l ∈ layer, schemas' l = output) ∧
      ∀ l ∈ placesOf a.nodes, schemas' l = schemas l := by
    refine ⟨fun l => if l ∈ layer then output else schemas l, fun l hl => if_pos hl, fun l hl => if_neg ?_⟩
    exact fun hlayer => hdisjoint l hlayer l (ha.used.mem_iff.mpr (List.mem_append_left _ hl)) rfl
  refine ⟨schemas', fun n hn => ?_, hnew⟩
  rcases List.mem_append.mp hn with hn | hn
  · obtain ⟨input, hin, htyped⟩ := hnodes n hn
    refine ⟨input, fun l hl => ?_, ?_⟩
    · rw [hold l (ha.places_of_inputs hn hl)]
      exact hin l hl
    · rw [hold n.location (List.mem_map_of_mem hn)]
      exact htyped
  · obtain ⟨i, l, hl, rfl⟩ := mem_stageNodes.mp hn
    refine ⟨schema, fun k hk => ?_, ?_⟩
    · have hk := hinputs i k hk
      rw [hold k (ha.tops_places hk)]
      exact htops k hk
    · have hloc : schemas' (layerNode targets inputs operator l i).location = output :=
        hnew l (List.mem_of_getElem? hl)
      rw [hloc]
      exact ⟨hop i l, hroute⟩

end Layers

/-- A builder whose graphs write a schema. -/
def Lays (tables : Location → TableStore) (schema : Schema) (below : Below) : Prop :=
  ∀ targets pool a, pool.Nodup → (∀ i, (targets.outputs i).Nodup) → Routed targets.partitioning schema →
    below targets pool = .ok a → Laid tables schema a.nodes a.tops

section Stages

variable {tables : Location → TableStore} {schema middle output : Schema} {below : Below}

theorem lays_paired {width : UInt64} {operator : Operator} (hs : Sound below) (h : Lays tables schema below)
    (hop : ∀ l, operator.Typed (tables l) schema output) :
    Lays tables output (pairedStage width operator below) := by
  intro targets pool a hpool houtputs hroute hok
  obtain ⟨layer, rest, b, rfl, _, hb, rfl⟩ := pairedStage_ok hok
  have hrest := (List.nodup_append.mp hpool).2.1
  have hlaid := h (.paired layer) _ _ hrest (nodup_outputs_paired layer) ⟨[], rfl⟩ hb
  exact hlaid.add_layer layer targets (hs _ _ _ hrest (nodup_outputs_paired layer) hb) hpool
    (fun i l hl => List.mem_of_getElem? (Option.mem_toList.mp hl)) (fun _ => hop) hroute

theorem lays_single {operator : Operator} (hs : Sound below) (h : Lays tables schema below)
    (hop : ∀ l, operator.Typed (tables l) schema output) :
    Lays tables output (singleStage operator below) := by
  intro targets pool a hpool houtputs hroute hok
  obtain ⟨top, rest, b, rfl, hb, rfl⟩ := singleStage_ok hok
  have hrest := (List.nodup_cons.mp hpool).2
  have hnodup : ∀ i, ((Targets.fanOut [top] .single).outputs i).Nodup := fun _ => List.nodup_singleton top
  have hlaid := h (.fanOut [top] .single) _ _ hrest hnodup ⟨[], rfl⟩ hb
  exact hlaid.add_layer [top] targets (hs _ _ _ hrest hnodup hb) hpool (fun _ _ hl => hl)
    (fun _ => hop) hroute

theorem lays_worker {p : UInt64} {partitioning : Partitioning} {worker : Nat → Operator}
    {gather : Operator} (hs : Sound below) (h : Lays tables schema below)
    (hpart : Routed partitioning schema) (hworker : ∀ i l, (worker i).Typed (tables l) schema middle)
    (hgather : ∀ l, gather.Typed (tables l) middle output) :
    Lays tables output (workerStage p partitioning worker gather below) := by
  intro targets pool a hpool houtputs hroute hok
  obtain ⟨top, workers, left, b, rfl, _, hb, rfl⟩ := workerStage_ok hok
  have hrest := (List.nodup_cons.mp hpool).2
  have hleft := (List.nodup_append.mp hrest).2.1
  have hnodup := (List.nodup_append.mp hrest).1
  have hbelow := hs (.fanOut workers partitioning) _ _ hleft (fun _ => hnodup) hb
  have hlaid := h (.fanOut workers partitioning) _ _ hleft (fun _ => hnodup)
    (routed_fanOut hpart workers) hb
  -- the workers are one layer more, and the node that gathers from them another
  have hmid := hbelow.add_layer workers (.fanOut [top] .single) worker hrest
    (linked_fanOut b.tops workers partitioning) (fun _ => hbelow.tops_nodup hleft)
    (fun _ => List.nodup_singleton top)
  have hmidLaid := hlaid.add_layer workers (.fanOut [top] .single) hbelow hrest (fun _ _ hl => hl)
    hworker ⟨[], rfl⟩
  exact hmidLaid.add_layer [top] targets hmid hpool (fun _ _ hl => hl) (fun _ => hgather) hroute

end Stages

section Plans

variable {tables : Location → TableStore} {scan : TableScan} {schema : Schema}

/-- No stage adds keys that its schema shows. -/
theorem keys_of_schemaOver {stage : Stage} {s : Schema} (hk : s.keys = [])
    (h : stage.schemaOver s = .ok schema) : schema.keys = [] := by
  cases stage with
  | filter predicate =>
    obtain ⟨_, _, h⟩ := bind_ok h
    cases h
    exact hk
  | project exprs =>
    obtain ⟨_, _, h⟩ := bind_ok h
    cases h
    rfl
  | group keys aggregates =>
    obtain ⟨_, _, _, rfl⟩ := groupColumns_ok h
    rfl
  | sort items =>
    obtain ⟨_, _, h⟩ := bind_ok h
    cases h
    exact hk
  | limit count =>
    cases h
    exact hk

theorem keys_of_schemaOf (hk : scan.columns.keys = []) {stages : List Stage}
    (h : schemaOf scan stages = .ok schema) : schema.keys = [] := by
  induction stages generalizing schema with
  | nil =>
    obtain ⟨_, _, h⟩ := bind_ok h
    cases h
    exact hk
  | cons stage below ih =>
    obtain ⟨s, hs, h⟩ := bind_ok h
    exact keys_of_schemaOver (ih hs) h

/-- A grouping is typed only if its keys can be hashed. -/
theorem routed_of_group {keys : List String} {aggregates : List Aggregate} {s : Schema}
    (h : (Stage.group keys aggregates).schemaOver s = .ok schema) : Routed (.hash keys) s := by
  obtain ⟨ks, as, hcolumns, _⟩ := groupColumns_ok h
  refine exists_mapM_ok fun k hk => ?_
  obtain ⟨f, _, hf⟩ := exists_of_forall₂ hcolumns.keys.flip hk
  obtain ⟨i, _, hi, _⟩ := Schema.typeOf_ok hf.type
  exact ⟨i, by rw [Router.keyColumn, hi]⟩

/-- The graph of a typed plan writes the schemas of the plan. -/
theorem lays_assemble (hk : scan.columns.keys = []) (ht : ∀ l, scan.Provided (tables l)) (p : UInt64)
    {stages : List Stage} (h : schemaOf scan stages = .ok schema) :
    Lays tables schema (assemble scan p stages) := by
  induction stages generalizing schema with
  | nil =>
    intro targets pool a hpool houtputs hroute hok
    obtain ⟨layer, rest, _, _, rfl⟩ := assemble_nil_ok hok
    obtain ⟨_, hcheck, h⟩ := bind_ok h
    cases h
    have hscans : ∀ i l, (Operator.scan (scan.part (everyNth scan.partitions.toNat layer.length i))).Typed
        (tables l) scan.columns scan.columns := fun i l => ⟨scan, _, rfl, ht l, rfl, hk, hcheck⟩
    exact laid_first hscans hroute
  | cons stage below ih =>
    obtain ⟨s, hs, h⟩ := bind_ok h
    have hsound := sound_assemble scan p below
    have hkeys : s.keys = [] := keys_of_schemaOf hk hs
    cases stage with
    | filter predicate => exact lays_paired hsound (ih hs) fun _ => h
    | project exprs => exact lays_paired hsound (ih hs) fun _ => h
    | group keys aggregates =>
      exact lays_worker hsound (ih hs) (routed_of_group h) (fun _ _ => h) fun _ => rfl
    | sort items =>
      obtain ⟨_, hcheck, h⟩ := bind_ok h
      obtain rfl : s = schema := Except.ok.inj h
      have hitems : ∀ i ∈ items, ∃ t, i.expr.typeOf s = .ok t := fun i hi =>
        checkAll_ok hcheck i.expr (List.mem_map_of_mem hi)
      obtain ⟨keyed, hkeyed⟩ := keySchema_of_typed hitems
      obtain ⟨hcolumns, hlength⟩ := keySchema_ok hkeyed
      have hbare : s = keyed.withoutKeys := by rw [Schema.withoutKeys, hcolumns, ← hkeys]
      exact lays_worker hsound (ih hs) ⟨[], rfl⟩ (fun _ _ => ⟨hitems, hkeyed⟩) fun _ => ⟨hlength, hbare⟩
    | limit count =>
      cases h
      exact lays_single hsound (ih hs) fun _ => rfl

/-- All nodes of a bound graph follow schemas, the root that of the plan. -/
theorem bind_follows {plan : Plan} {p : UInt64} {free : List Location} {g : Graph}
    (hk : plan.scan.columns.keys = []) (ht : ∀ l, plan.scan.Provided (tables l))
    (h : plan.schema = .ok schema) (hfree : free.Nodup) (hbind : (plan.bind p free).1 = .ok g) :
    ∃ schemas : Location → Schema, (∀ n ∈ g.nodes, n.Follows tables schemas) ∧
      schemas g.root.location = schema := by
  obtain ⟨needed, a, _, _, _, hassemble, hnodes, htop⟩ := bind_graph_ok hbind
  have htake := (List.take_sublist needed.toNat free).nodup hfree
  have hlays := lays_assemble hk ht p h
  have hlaid : Laid tables schema a.nodes a.tops := by
    rcases assembleRoot_cases hassemble with ⟨root, rest, b, hpool, hb, rfl⟩ | ⟨_, hassemble⟩
    · rw [hpool] at htake
      have hrest := (List.nodup_cons.mp htake).2
      have hbelow := sound_assemble _ _ _ _ _ _ hrest (nodup_outputs_paired _) hb
      have hlaid := hlays _ _ _ hrest (nodup_outputs_paired _) ⟨[], rfl⟩ hb
      exact hlaid.add_layer [root] .root hbelow htake (fun _ _ hl => hl) (fun _ _ => rfl) ⟨[], rfl⟩
    · exact hlays .root _ _ htake (fun _ => List.nodup_nil) ⟨[], rfl⟩ hassemble
  obtain ⟨schemas, hfollows, htops⟩ := hlaid
  rw [hnodes] at hfollows
  exact ⟨schemas, hfollows, htops _ (List.mem_of_mem_head? (rootOf_ok htop).2)⟩

end Plans

end Plan
end QueryCluster
