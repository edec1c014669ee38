import QueryCluster.Proofs.Graph.Counting
import QueryCluster.Proofs.Graph.Layers

/-!
# Parallelism does not change the answer

Stage by stage, from the scan up, the last layer of what is built has written the rows that the
stages mean. So the root of a graph collects what the plan means, up to the order of rows, on however
many executors it runs, however rows are cut into batches and in whatever order they arrive. It takes
a plan whose meaning does not depend on the order of rows.
-/
namespace QueryCluster

open Plan (stageNodes assemble)

/-- A stage that does not see the order of its rows. -/
def Stage.OrderFree (s : Schema) : Stage → Prop
  | group keys aggregates => ExactGroup s keys aggregates
  | limit _ => False
  | _ => True

/-- Stages that do not see the order of rows, and that all have a column. -/
def Plan.OrderFreeOver (scan : TableScan) : List Stage → Prop
  | [] => scan.columns.columns ≠ []
  | stage :: below => OrderFreeOver scan below ∧
    (∀ s, schemaOf scan below = .ok s → stage.OrderFree s) ∧
    ∀ s, schemaOf scan (stage :: below) = .ok s → s.columns ≠ []

def Plan.OrderFree (plan : Plan) : Prop := OrderFreeOver plan.scan plan.stages

theorem Plan.OrderFreeOver.columns_ne {scan : TableScan} {stages : List Stage} {s : Schema}
    (h : OrderFreeOver scan stages) (hs : schemaOf scan stages = .ok s) : s.columns ≠ [] := by
  cases stages with
  | nil =>
    obtain ⟨_, _, hs⟩ := bind_ok hs
    cases hs
    exact h
  | cons stage below => exact h.2.2 s hs

section Build

variable {w : Workplace} {arrivals : OperatorNode → List Nat} {p : Progress} {scan : TableScan}
  {q : UInt64}

/-- The last layer of what is built has written what the stages mean. -/
def Written (w : Workplace) (arrivals : OperatorNode → List Nat) (p : Progress) (scan : TableScan)
    (stages : List Stage) (targets : Targets) (a : Assembly) (s : Schema) : Prop :=
  ∃ rows node share lower, Plan.meaningOf w.tables scan stages = .ok rows ∧
    (∀ r ∈ rows, r.Typed s.columns) ∧
    Gathered w arrivals p targets a.tops s.withoutKeys rows node share ∧
    a.nodes = lower ++ (List.range a.tops.length).map node

/-- The schema of the stages below, and the meaning over it. -/
theorem meaningOf_cons {stage : Stage} {below : List Stage} {s : Schema} {rows out : List Row}
    (hs : Plan.schemaOf scan below = .ok s)
    (hrows : Plan.meaningOf w.tables scan below = .ok rows)
    (hout : stage.meaning s.withoutKeys rows = .ok out) :
    Plan.meaningOf w.tables scan (stage :: below) = .ok out := by
  rw [Plan.meaningOf, hs, hrows]
  exact hout

theorem scan_written (hq : q ≠ 0) (ht : scan.Stored w.tables) {targets : Targets}
    {pool : List Location} {a : Assembly} (h : assemble scan q [] targets pool = .ok a)
    (hx : ∀ n ∈ a.nodes, n.Executed w arrivals p) :
    Written w arrivals p scan [] targets a scan.columns := by
  obtain ⟨layer, rest, _, hlen, rfl⟩ := Plan.assemble_nil_ok h
  have hn : 0 < layer.length := hlen ▸ scanWidth_pos hq
  obtain ⟨all, share, hall, htyped, hg⟩ := scan_layer hn ht hx
  refine ⟨all, _, share, [], hall, htyped, hg, ?_⟩
  exact stageNodes_eq layer targets (fun _ => []) (scanWorker scan layer.length)

section Stages

variable {below : List Stage} {targets : Targets} {pool : List Location} {a : Assembly} {s : Schema}

theorem counts_withoutKeys (h : s.columns ≠ []) : s.withoutKeys.Counts := .inl h

theorem paired_written {stage : Stage} {operator : Operator} {s' : Schema}
    {f : List Row → Except OperatorError (List Row)} (hf : Rowwise f)
    (process : Schema → Except OperatorError (Process Unit))
    (hrun : ∀ arrival feeds, operator.run w arrival feeds =
      Process.runOn process (Feed.gather arrival feeds))
    (hp : ∀ p, process s.withoutKeys = .ok p → Treats s.withoutKeys s'.withoutKeys f p)
    (hmeaning : ∀ rows, stage.meaning s.withoutKeys rows = f rows)
    (htyped : ∀ rows out, (∀ r ∈ rows, r.Typed s.columns) → f rows = .ok out →
      ∀ r ∈ out, r.Typed s'.columns)
    (hbelow : ∀ targets pool b, assemble scan q below targets pool = .ok b →
      (∀ n ∈ b.nodes, n.Executed w arrivals p) → Written w arrivals p scan below targets b s)
    (hs : Plan.schemaOf scan below = .ok s) (hcolumns : s.columns ≠ [])
    (h : Plan.pairedStage (Plan.extentOf scan q below).top operator (assemble scan q below) targets
      pool = .ok a)
    (hx : ∀ n ∈ a.nodes, n.Executed w arrivals p) :
    Written w arrivals p scan (stage :: below) targets a s' := by
  obtain ⟨layer, rest, b, _, hlen, hb, rfl⟩ := Plan.pairedStage_ok h
  obtain ⟨rows, node, share, lower, hrows, hrowsTyped, hg, _⟩ :=
    hbelow _ _ b hb fun n hn => hx n (List.mem_append_left _ hn)
  have hd := hg.paired (counts_withoutKeys hcolumns) (hlen.trans (Plan.length_tops hb).symm)
  obtain ⟨all, share', hall, hg'⟩ := hf.gathered hd (fun n hn => hx n (List.mem_append_right _ hn))
    process (fun _ => hrun) hp
  refine ⟨all, _, share', b.nodes, meaningOf_cons hs hrows ((hmeaning rows).trans hall),
    htyped rows all hrowsTyped hall, hg', ?_⟩
  exact congrArg (b.nodes ++ ·) (stageNodes_eq layer targets _ _)

/-- The columns of a grouping, as the schema of the plan has them. -/
theorem groupSchema_ok {keys : List String} {aggregates : List Aggregate} {s' : Schema}
    (h : (Stage.group keys aggregates).schemaOver s = .ok s') :
    ∃ ks as, GroupColumns s.withoutKeys keys aggregates ks as ∧ s' = { columns := ks ++ as } := by
  obtain ⟨ks, as, hcolumns, rfl⟩ := groupColumns_ok h
  exact ⟨ks, as, ⟨hcolumns.keys.imp fun _ _ hf => ⟨hf.name, hf.type⟩,
    hcolumns.aggregates.imp fun _ _ hf => ⟨hf.name, hf.type⟩⟩, rfl⟩

theorem group_written {keys : List String} {aggregates : List Aggregate} {s' : Schema} (hq : q ≠ 0)
    (hexact : ExactGroup s keys aggregates)
    (hbelow : ∀ targets pool b, assemble scan q below targets pool = .ok b →
      (∀ n ∈ b.nodes, n.Executed w arrivals p) → Written w arrivals p scan below targets b s)
    (hs : Plan.schemaOf scan below = .ok s) (hcolumns : s.columns ≠ [])
    (hs' : (Stage.group keys aggregates).schemaOver s = .ok s') (hcolumns' : s'.columns ≠ [])
    (h : assemble scan q (.group keys aggregates :: below) targets pool = .ok a)
    (hx : ∀ n ∈ a.nodes, n.Executed w arrivals p) :
    Written w arrivals p scan (.group keys aggregates :: below) targets a s' := by
  obtain ⟨top, workers, left, b, _, hlen, hb, rfl⟩ := Plan.workerStage_ok h
  have hn : 0 < workers.length := hlen ▸ toNat_pos hq
  obtain ⟨rows, node, share, lower, hrows, hrowsTyped, hg, _⟩ :=
    hbelow _ _ b hb fun n hn => hx n (List.mem_append_left _ (List.mem_append_left _ hn))
  obtain ⟨keyColumns, slots, ks, as, all, written, hk, hslots, hgroup, hall, halltyped, hg'⟩ :=
    group_layer hlen.symm hn hg (counts_withoutKeys hcolumns) rfl
      ⟨hexact.keys, hexact.average, hexact.arguments⟩ hrowsTyped
      fun n hn => hx n (List.mem_append_left _ (List.mem_append_right _ hn))
  obtain ⟨ks', as', hgroup', rfl⟩ := groupSchema_ok hs'
  obtain ⟨rfl, rfl⟩ := hgroup'.unique hgroup
  have hd := hg'.fanOut (counts_withoutKeys hcolumns') (fun _ h => by cases h) (by simp)
  obtain ⟨gathered, hgathered⟩ := union_layer hd fun n hn => hx n (List.mem_append_right _ hn)
  have hmeaning : (Stage.group keys aggregates).meaning s.withoutKeys rows = .ok all := by
    rw [Stage.meaning, hk, hslots]
    exact hall
  refine ⟨all, _, gathered, b.nodes ++ stageNodes workers (.fanOut [top] .single) (fun _ => b.tops)
    (groupWorker keys aggregates q), meaningOf_cons hs hrows hmeaning, halltyped, hgathered, ?_⟩
  exact congrArg (_ ++ ·) (stageNodes_eq [top] targets _ _)

theorem sort_written {items : List SortItem} (hq : q ≠ 0)
    (hbelow : ∀ targets pool b, assemble scan q below targets pool = .ok b →
      (∀ n ∈ b.nodes, n.Executed w arrivals p) → Written w arrivals p scan below targets b s)
    (hs : Plan.schemaOf scan below = .ok s) (hcolumns : s.columns ≠ [])
    (h : assemble scan q (.sort items :: below) targets pool = .ok a)
    (hx : ∀ n ∈ a.nodes, n.Executed w arrivals p) :
    Written w arrivals p scan (.sort items :: below) targets a s := by
  obtain ⟨top, workers, left, b, _, hlen, hb, rfl⟩ := Plan.workerStage_ok h
  have hn : 0 < workers.length := hlen ▸ toNat_pos hq
  obtain ⟨rows, node, share, lower, hrows, hrowsTyped, hg, _⟩ :=
    hbelow _ _ b hb fun n hn => hx n (List.mem_append_left _ (List.mem_append_left _ hn))
  obtain ⟨output, keyed, sorted, houtput, hkeyed, hg'⟩ :=
    sorter_layer hn hg (counts_withoutKeys hcolumns)
      fun n hn => hx n (List.mem_append_left _ (List.mem_append_right _ hn))
  have hsettled : rows.map Row.withoutKeys = rows :=
    (List.map_congr_left fun r hr => (hrowsTyped r hr).withoutKeys).trans (List.map_id' rows)
  rw [hsettled] at hkeyed
  have houtputColumns : output.columns = s.columns := (keySchema_ok houtput).1
  have hsame : output.withoutKeys = s.withoutKeys := by
    rw [Schema.withoutKeys, houtputColumns]
    rfl
  obtain ⟨merged, hmerged⟩ := merge_layer hn hg' (.inl (houtputColumns ▸ hcolumns))
    fun n hn => hx n (List.mem_append_right _ hn)
  rw [hsame] at hmerged
  refine ⟨rows, _, merged, b.nodes ++ stageNodes workers (.fanOut [top] .single) (fun _ => b.tops)
    fun _ => .localSort items, meaningOf_cons hs hrows rfl, hrowsTyped,
    { hmerged with rows := hkeyed.symm.trans hmerged.rows }, ?_⟩
  exact congrArg (_ ++ ·) (stageNodes_eq [top] targets _ _)

end Stages

/-- The columns of a projection, as the schema of the plan has them. -/
theorem projectSchema_ok {s s' : Schema} {exprs : List NamedExpr}
    (h : (Stage.project exprs).schemaOver s = .ok s') :
    ∃ columns, List.Forall₂ (Projects s.withoutKeys) exprs columns ∧ s' = { columns } := by
  obtain ⟨columns, hcolumns, rfl⟩ := projects_ok h
  exact ⟨columns, hcolumns.imp fun e _ hf =>
    ⟨hf.name, (Expr.typeOf_withoutKeys e.expr).trans hf.type⟩, rfl⟩

theorem project_typed {s : Schema} {exprs : List NamedExpr} {columns : List Field}
    (hcolumns : List.Forall₂ (Projects s.withoutKeys) exprs columns) {rows out : List Row}
    (hrows : ∀ r ∈ rows, r.Typed s.columns)
    (h : rows.mapM (projectRow s.withoutKeys exprs) = .ok out) : ∀ r ∈ out, r.Typed columns := by
  intro r hr
  obtain ⟨old, hold, hproject⟩ := exists_of_forall₂ (mapM_ok h) hr
  have htyped : old.Typed s.withoutKeys.columns := hrows old hold
  exact projectRow_typed (hcolumns.imp fun e f hf => hf.type) htyped hproject

/-- Whatever is built for some stages writes what they mean. -/
theorem assemble_written (hq : q ≠ 0) (ht : scan.Stored w.tables) {stages : List Stage} {s : Schema}
    (hfree : Plan.OrderFreeOver scan stages) (hs : Plan.schemaOf scan stages = .ok s)
    (targets : Targets) (pool : List Location) (a : Assembly)
    (h : assemble scan q stages targets pool = .ok a)
    (hx : ∀ n ∈ a.nodes, n.Executed w arrivals p) :
    Written w arrivals p scan stages targets a s := by
  induction stages generalizing s targets pool a with
  | nil =>
    obtain ⟨_, _, hs⟩ := bind_ok hs
    cases hs
    exact scan_written hq ht h hx
  | cons stage below ih =>
    obtain ⟨hbelowFree, hstage, hsome⟩ := hfree
    obtain ⟨t, hbelow, hover⟩ := bind_ok hs
    have hstage := hstage t hbelow
    have hcolumns := hbelowFree.columns_ne hbelow
    have ih := fun targets pool b hb hx => ih hbelowFree hbelow targets pool b hb hx
    cases stage with
    | filter predicate =>
      obtain ⟨_, _, hover⟩ := bind_ok hover
      cases hover
      exact paired_written (rowwise_keepRows _) (filterProcess predicate) (fun _ _ => rfl)
        (fun _ hp => filterProcess_treats rfl hp) (fun _ => rfl)
        (fun rows out hr hk r hmem => hr r ((keepRows_sublist hk).subset hmem)) ih hbelow hcolumns h hx
    | project exprs =>
      obtain ⟨columns, hall, rfl⟩ := projectSchema_ok hover
      refine paired_written (rowwise_mapM _) (projectProcess exprs) (fun _ _ => rfl) (fun _ hp => ?_)
        (fun _ => rfl) (fun rows out hr hk => project_typed hall hr hk) ih hbelow hcolumns h hx
      obtain ⟨columns', hall', htreats⟩ := projectProcess_treats hp
      rw [Projects.unique hall' hall] at htreats
      exact htreats
    | group keys aggregates =>
      exact group_written hq hstage ih hbelow hcolumns hover (hsome s hs) h hx
    | sort items =>
      obtain ⟨_, _, hover⟩ := bind_ok hover
      cases hover
      exact sort_written hq ih hbelow hcolumns h hx
    | limit count => exact hstage.elim

end Build

section Root

variable {w : Workplace} {arrivals : OperatorNode → List Nat} {p : Progress}

/-- What a root that stands alone keeps. -/
theorem root_result {ms : List OperatorNode} {root : Location} {schema : Schema} {rows : List Row}
    {node : Nat → OperatorNode} {share : Nat → List Row}
    (hg : Gathered w arrivals p .root [root] schema rows node share)
    (ha : Arranged (ms ++ [node 0]))
    (h : runNodes w arrivals {} (ms ++ [node 0]) = (p, none)) :
    ∃ all, p.result = some all ∧ all.rows.Perm rows := by
  have hone : 0 < [root].length := Nat.one_pos
  obtain ⟨stats, kept, hout, hresult⟩ := result_of_last ha h
  have hroot : (node 0).isRoot := by
    rw [OperatorNode.isRoot, hg.outputs 0 hone]
    rfl
  obtain ⟨all, rfl, _, hrows⟩ := OperatorNode.root_execute_ok hroot hout
  refine ⟨all, hresult all rfl, ?_⟩
  have hshare := hg.rows
  rw [List.length_singleton, List.range_one, List.flatMap_singleton] at hshare
  rw [hrows]
  exact (hg.gives 0 hone).rows.trans hshare.symm

end Root

/-- A complete graph on executors whose names tell them apart. -/
theorem arranged_of_wired {nodes : List OperatorNode} {free : List Location}
    (hw : Plan.Wired nodes) (hplaces : (Plan.placesOf nodes).Nodup)
    (hfree : ∀ l ∈ Plan.placesOf nodes, l ∈ free) (hnames : (free.map (·.name)).Nodup) :
    Arranged nodes := by
  have hname : ∀ l ∈ Plan.placesOf nodes, ∀ m ∈ Plan.placesOf nodes, l.name = m.name → l = m :=
    fun l hl m hm => List.inj_on_of_nodup_map hnames (hfree l hl) (hfree m hm)
  have hplace : ∀ n ∈ nodes, n.location ∈ Plan.placesOf nodes := fun n hn => List.mem_map_of_mem hn
  have hinput : ∀ n ∈ nodes, ∀ l ∈ n.inputs, l ∈ Plan.placesOf nodes := by
    intro n hn l hl
    obtain ⟨m, hm, rfl, _⟩ := hw.sources n hn l hl
    exact hplace m hm
  refine ⟨?_, ?_, fun n hn l hl heq => ?_, fun n hn => ?_⟩
  · refine (List.pairwise_map.mp hplaces).imp_of_mem fun {n m} hn hm hne heq => hne ?_
    exact hname _ (hplace n hn) _ (hplace m hm) heq
  · refine hw.earlier.imp_of_mem fun {n m} hn hm hne l hl heq => hne ?_
    rw [← hname l (hinput n hn l hl) _ (hplace m hm) heq]
    exact hl
  · refine hw.self n hn ?_
    rw [← hname l (hinput n hn l hl) _ (hplace n hn) heq]
    exact hl
  · refine (hw.outputs n hn).map_on fun l hl m hm heq => ?_
    obtain ⟨x, hx, rfl, _⟩ := hw.readers n hn l hl
    obtain ⟨y, hy, rfl, _⟩ := hw.readers n hn m hm
    exact hname _ (hplace x hx) _ (hplace y hy) heq

/-- The root of a run without faults collects what the plan means. -/
theorem run_collects_meaning {w : Workplace} {arrivals : OperatorNode → List Nat} {p : Progress}
    {plan : Plan} {q : UInt64} {free : List Location} {g : Graph} {s : Schema}
    (hschema : plan.schema = .ok s) (hplan : plan.OrderFree) (hstored : plan.scan.Stored w.tables)
    (hnames : (free.map (·.name)).Nodup) (hbind : (plan.bind q free).1 = .ok g)
    (hrun : g.run w arrivals = (p, none))
    (hframes : ∀ n ∈ g.nodes,
      n.FramesWithin maxPayload w (arrivals n) (n.feeds p.wires) n.outputs.length) :
    ∃ all rows, p.result = some all ∧ plan.meaning w.tables = .ok rows ∧ all.rows.Perm rows := by
  obtain ⟨hwired, hplaces, hfree⟩ := Plan.bind_wired (List.Nodup.of_map _ hnames) hbind
  have harranged := arranged_of_wired hwired hplaces hfree hnames
  have hx : ∀ n ∈ g.nodes, n.Executed w arrivals p := fun n hn =>
    ⟨runNodes_solved harranged (by simp) hrun n hn, hframes n hn⟩
  obtain ⟨needed, all, hcount, _, _, hroot, hnodes, _⟩ := Plan.bind_graph_ok hbind
  have hq : q ≠ 0 := by
    rintro rfl
    cases hcount
  rcases Plan.assembleRoot_cases hroot with ⟨root, rest, a, _, ha, rfl⟩ | ⟨htop, hroot⟩
  · have hnodes : a.nodes ++ stageNodes [root] .root (fun _ => a.tops) (fun _ => .union) = g.nodes :=
      hnodes
    rw [← hnodes] at hx
    obtain ⟨rows, node, share, _, hrows, _, hg, _⟩ := assemble_written hq hstored hplan hschema _ _ a ha
      fun n hn => hx n (List.mem_append_left _ hn)
    have hd := hg.replicate (counts_withoutKeys (hplan.columns_ne hschema))
      (Nat.le_of_eq (Plan.length_tops ha))
    obtain ⟨gathered, hgathered⟩ := union_layer hd fun n hn => hx n (List.mem_append_right _ hn)
    have hlast : g.nodes = a.nodes ++ [nodeOf .root [root] (fun _ => a.tops) (fun _ => .union) 0] :=
      hnodes.symm
    rw [Graph.run, hlast] at hrun
    rw [hlast] at harranged
    obtain ⟨all, hresult, hperm⟩ := root_result hgathered harranged hrun
    exact ⟨all, rows, hresult, hrows, hperm⟩
  · rw [← hnodes] at hx
    obtain ⟨rows, node, share, lower, hrows, _, hg, hlast⟩ :=
      assemble_written hq hstored hplan hschema _ _ all hroot hx
    have hone : all.tops.length = 1 := by
      have hpos : 0 < (Plan.extentOf plan.scan q plan.stages).top.toNat := top_pos hq _
      have hle : ¬ 1 < (Plan.extentOf plan.scan q plan.stages).top.toNat := htop
      rw [Plan.length_tops hroot]
      omega
    obtain ⟨root, hroot⟩ := List.length_eq_one_iff.mp hone
    rw [hroot] at hg hlast
    have hlast : g.nodes = lower ++ [node 0] := hnodes.symm.trans hlast
    rw [Graph.run, hlast] at hrun
    rw [hlast] at harranged
    obtain ⟨all, hresult, hperm⟩ := root_result hg harranged hrun
    exact ⟨all, rows, hresult, hrows, hperm⟩

section Halves

/-- One column of numbers, cut into two partitions. -/
def halfColumns : Schema := { columns := [⟨"n", .int64⟩] }

def half (ns : List Int64) : Split :=
  { schema := halfColumns, rows := ns.map fun n => { values := [.int64 n] } }

def halvesScan : TableScan where
  catalog := "c"
  schema := "s"
  table := "t"
  columns := halfColumns
  partitions := 2
  filters := []

def halvesWorkplace : Workplace where
  tables := MemoryTables.store [(⟨"c", "s", "t"⟩, [[half [1]], [half [2, 1]]])]
  batchRows := 4
  sortLimit := none

def halvesPlan : Plan := ⟨[], halvesScan⟩

def halvesHosts : List Location := [⟨"root", "host", 1⟩, ⟨"left", "host", 1⟩, ⟨"right", "host", 1⟩]

def halfScan (name : String) (partition : UInt64) : OperatorNode where
  location := ⟨name, "host", 1⟩
  outputs := [⟨"root", "host", 1⟩]
  partitioning := .oneToOne
  operator := .scan (halvesScan.part [partition])

def halvesRoot : OperatorNode where
  location := ⟨"root", "host", 1⟩
  inputs := [⟨"left", "host", 1⟩, ⟨"right", "host", 1⟩]
  operator := .union

def halvesGraph : Graph := ⟨[halfScan "left" 0, halfScan "right" 1, halvesRoot], halvesRoot⟩

theorem halves_stored : halvesScan.Stored halvesWorkplace.tables := by
  intro p splits h
  have hread : ∀ ns : List Int64, splits = [half ns] → ∀ s ∈ splits,
      s.schema = halvesScan.columns.withoutKeys ∧ ∀ r ∈ s.rows, r.Typed halvesScan.columns.columns := by
    rintro ns rfl
    refine List.forall_mem_singleton.mpr ⟨rfl, fun r hr => ?_⟩
    obtain ⟨n, _, rfl⟩ := List.mem_map.mp hr
    exact ⟨.cons (.inr rfl) .nil, rfl, rfl⟩
  match p, h with
  | 0, h => exact hread [1] (Except.ok.inj h).symm
  | 1, h => exact hread [2, 1] (Except.ok.inj h).symm
  | _ + 2, h => cases h

/-- Two scans run to their end, and the rows of both arrive at the root. -/
theorem run_collects_meaning_halves :
    ∃ p all rows, (halvesPlan.bind 2 halvesHosts).1 = .ok halvesGraph ∧
      halvesGraph.run halvesWorkplace (fun _ => []) = (p, none) ∧ p.result = some all ∧
      halvesPlan.meaning halvesWorkplace.tables = .ok rows ∧ all.rows.Perm rows := by
  have hclear : (halvesGraph.run halvesWorkplace fun _ => []).2.isNone ∧ ∀ n ∈ halvesGraph.nodes,
      n.FramesWithin maxPayload halvesWorkplace []
        (n.feeds (halvesGraph.run halvesWorkplace fun _ => []).1.wires) n.outputs.length := by
    decide +kernel
  have hrun : halvesGraph.run halvesWorkplace (fun _ => []) =
      ((halvesGraph.run halvesWorkplace fun _ => []).1, none) :=
    Prod.ext rfl (Option.isNone_iff_eq_none.mp hclear.1)
  have hbind : (halvesPlan.bind 2 halvesHosts).1 = .ok halvesGraph := rfl
  have hfree : halvesPlan.OrderFree := List.cons_ne_nil _ _
  obtain ⟨all, rows, hresult, hmeaning, hperm⟩ :=
    run_collects_meaning rfl hfree halves_stored (by decide) hbind hrun hclear.2
  exact ⟨_, all, rows, hbind, hrun, hresult, hmeaning, hperm⟩

end Halves

end QueryCluster
