import QueryCluster.Proofs.Executor.Attaching
import QueryCluster.Proofs.Graph.GroupStage
import QueryCluster.Proofs.Graph.Outputs

/-!
# Buckets reach their workers

A node hands the streams of its readers to its router in the order of its outputs. The planner lists the
workers of a grouping in the order of their buckets, so each bucket goes over the stream that its own worker
has opened.
-/
namespace QueryCluster

open StreamWriter (stream)

/-! ## What a router sends -/

section Routing

variable {schema : Schema} {keys : List String} {keyColumns : List Nat}

theorem Router.shares_hash {r : Router} (hp : r.partitioning = .hash keys) (splits : List Split) (k : Nat) :
    (rowsOf (r.shares splits k)).map Row.values =
      ((rowsOf splits).filter fun row => hashPartition (r.keyOf row) r.outputs.length == k).map
        Row.values := by
  induction splits with
  | nil => rfl
  | cons s splits ih =>
    have hturned : r.turned s = r := by simp [turned, hp]
    have hshare : r.share s k = unlessEmpty (r.bucket s k) := by simp [share, hp]
    rw [shares, hturned, hshare, rowsOf_append, rowsOf_unlessEmpty, List.map_append, bucket_values, ih,
      rowsOf_cons, List.filter_append, List.map_append]

theorem Router.columnsOf_hash (h : columnsOf (.hash keys) schema = .ok keyColumns) :
    keyColumns = keys.filterMap schema.indexOf? := by
  have hcolumns := mapM_ok h
  clear h
  induction hcolumns with
  | nil => rfl
  | @cons key c keys keyColumns hc _ ih =>
    cases hindex : schema.indexOf? key with
    | none => simp [keyColumn, hindex] at hc
    | some c' =>
      obtain rfl : c' = c := by simpa [keyColumn, hindex] using hc
      simp [hindex, ih]

/-- The rows of an emission that belong to one of a number of workers. -/
def Emission.bucket (e : Emission) (schema : Schema) (keys : List String) (workers k : Nat) : List Row :=
  (rowsOf e.splits).filter fun row => hashPartition (Partitioning.keyOf schema keys row) workers == k

theorem hashPartition_one (key : List Value) : hashPartition key 1 = 0 := rfl

theorem Emission.batchesTo_bucket {e : Emission} {places : List Location} (hs : e.schema = some schema)
    (hc : Router.columnsOf (Targets.fanOut places (.hash keys)).partitioning schema = .ok keyColumns)
    {k : Nat} (hk : k < places.length) (batchRows : Nat) :
    (rowsOf (e.batchesTo places.length (Targets.fanOut places (.hash keys)).partitioning batchRows k)).map
        Row.values = (e.bucket schema keys places.length k).map Row.values := by
  by_cases hone : places.length = 1
  · obtain ⟨l, rfl⟩ := List.length_eq_one_iff.mp hone
    obtain rfl : k = 0 := by simpa using hk
    have hsingle : (Targets.fanOut [l] (.hash keys)).partitioning = .single := rfl
    have hall : e.bucket schema keys 1 0 = rowsOf e.splits := by simp [bucket, hashPartition_one]
    rw [hsingle, rowsOf_batchesTo_single hs, List.length_singleton, hall]
  · have hhash : (Targets.fanOut places (.hash keys)).partitioning = .hash keys := by
      match places, hone with
      | [], _ => rfl
      | _ :: _ :: _, _ => rfl
    rw [hhash] at hc ⊢
    rw [rowsOf_batchesTo hs hc, Router.shares_hash Router.opened_partitioning, Router.length_opened]
    simp only [Router.keyOf, Router.opened_keyColumns, Router.columnsOf_hash hc]
    rfl

end Routing

/-! ## What arrives -/

namespace Network

variable {n : Network} {streams : List StreamId} {sent : List Bytes} {k : Nat} {id : StreamId} {bs : Bytes}

theorem sent_deliver (hstreams : streams.Nodup) (hlength : sent.length = streams.length)
    (hid : streams[k]? = some id) (hbs : sent[k]? = some bs) (hopen : n.isClosed id = false) :
    (n.deliver streams sent).sent id = bs := by
  cases hconnection : n.connections[id]? with
  | none => simp [isClosed, hconnection] at hopen
  | some c =>
    have hclosed : c.closed = false := by simpa [isClosed, hconnection] using hopen
    have honce : ((streams.zip sent).map Prod.fst).Nodup := by
      rw [List.map_fst_zip (by omega)]
      exact hstreams
    have hmem : (id, bs) ∈ streams.zip sent :=
      List.mem_of_getElem? (List.getElem?_zip_eq_some.mpr ⟨hid, hbs⟩)
    have hlookup := (lookup_eq_some_iff_mem honce).mpr hmem
    simp [Network.sent, deliver, List.getElem?_map, List.getElem?_zipIdx, hconnection, hlookup, hclosed]

@[simp] theorem sent_put (n : Network) (i : Nat) (s : Slot) (id : StreamId) :
    (n.put i s).sent id = n.sent id := by
  cases hconnection : n.connections[id]? with
  | none => simp [Network.sent, put, close, List.getElem?_map, List.getElem?_zipIdx, hconnection]
  | some c =>
    simp only [Network.sent, put, close, List.getElem?_map, List.getElem?_zipIdx, hconnection,
      Option.map_some, Nat.zero_add]
    split <;> rfl

theorem sent_finish (n : Network) (i : Nat) (j : Job) (e : Execution) (id : StreamId) :
    (n.finish i j e).sent id = (n.deliver j.egress e.sent).sent id := by
  obtain ⟨outcome, hfinish⟩ := n.finish_eq i j e
  rw [hfinish, sent_put]

end Network

/-- Whenever the job ends well, the reader on this stream gets the rows of one bucket and no others. -/
def Job.Carries (j : Job) (keys : List String) (workers k : Nat) (id : StreamId) : Prop :=
  ∀ (w : Workplace) (arrival : List Nat) (inputs : List Feed) (schema : Schema) (x : Stats × Option Split),
    (j.node.operator.run w arrival inputs).schema = some schema →
    (j.node.execute w arrival inputs j.egress.length).outcome = .ok x →
    ∃ batches : List Split, (rowsOf batches).map Row.values =
        ((j.node.operator.run w arrival inputs).bucket schema keys workers k).map Row.values ∧
      ∀ (n : Network) (i : Nat), n.isClosed id = false →
        (n.finish i j (j.node.execute w arrival inputs j.egress.length)).sent id = stream schema batches

theorem GroupStage.carries {q : UInt64} {nodes ups team : List OperatorNode} {keys : List String}
    {aggregates : List Aggregate} {j : Job} (hstage : GroupStage q nodes keys aggregates ups team)
    (hwriter : j.node ∈ ups) (hlength : j.egress.length = j.node.outputs.length) (honce : j.egress.Nodup)
    {k : Nat} {id : StreamId} (hid : j.egress[k]? = some id) : j.Carries keys team.length k id := by
  intro w arrival inputs schema x hschema hok
  obtain ⟨houtputs, hpartitioning⟩ := hstage.writers _ hwriter
  have hteam : team.length = j.node.outputs.length := by simp [houtputs, Plan.placesOf]
  have hk : k < j.egress.length := (List.getElem?_eq_some_iff.mp hid).1
  have hroot : j.node.isRoot = false := by
    rw [OperatorNode.isRoot, List.isEmpty_eq_false_iff, ← List.length_pos_iff]
    omega
  obtain ⟨⟨keyColumns, hcolumns⟩, hsent⟩ := j.node.execute_ok hroot (by omega) hschema hok
  rw [hpartitioning] at hcolumns
  have hrows := Emission.batchesTo_bucket hschema hcolumns (hlength ▸ hk) w.batchRows
  rw [← hpartitioning, ← hteam] at hrows
  refine ⟨_, hrows, ?_⟩
  intro n i hopen
  rw [Network.sent_finish]
  apply Network.sent_deliver honce (by simp [hsent]) hid _ hopen
  rw [hsent, List.getElem?_map, List.getElem?_range hk, hlength, ← hteam]
  rfl

theorem Job.Serves.mem {j : Job} {node : OperatorNode} {opened : List (String × StreamId)}
    (h : j.Serves node opened) {k : Nat} {l : Location} (hl : node.outputs[k]? = some l) :
    ∃ id, j.egress[k]? = some id ∧ (l.name, id) ∈ opened := by
  have hk : k < j.egress.length := by
    rw [h.length]
    exact (List.getElem?_eq_some_iff.mp hl).1
  have hid : j.egress[k]? = some j.egress[k] := List.getElem?_eq_getElem hk
  refine ⟨_, hid, ?_⟩
  apply h.readers.subset
  apply List.mem_of_getElem?
  rw [List.getElem?_zip_eq_some, List.getElem?_map, hl]
  exact ⟨rfl, hid⟩

theorem Job.Serves.nodup {j : Job} {node : OperatorNode} {opened : List (String × StreamId)}
    (h : j.Serves node opened) (hown : (opened.map Prod.snd).Nodup) : j.egress.Nodup := by
  have hstreams := h.readers.map Prod.snd
  rw [List.map_snd_zip (by simp [h.length])] at hstreams
  exact hstreams.nodup_iff.mpr hown

section Reaching

open Station

/-- The streams of a job are those that the readers named by the outputs have opened, each once and in the
order of the outputs, whoever else asked and in whatever order they came. So what goes over stream `k` of a
node that writes to a grouping is bucket `k`, and its reader is the worker that the planner has put at `k`. -/
theorem outputs_reach_readers {name : String} {before during : List Event} {i : Instruction}
    {node : OperatorNode} {slot : Slot} {j : Job} (hnode : i.node = .ok node)
    (hsent : (run name before).resets name (Event.sent i) = true)
    (hnames : (node.outputs.map (·.name)).Nodup)
    (hbroken : Unbroken name (before ++ [Event.sent i]) during)
    (halone : ∀ es, es <+: before ++ [Event.sent i] ++ during → (run name es).Alone)
    (hown : (during.filterMap opening).Nodup)
    (hstart : (run name (before ++ [Event.sent i] ++ during)).slot.start = .ok (slot, j)) :
    j.Serves node (grants name (run name (before ++ [Event.sent i])) during) ∧ j.egress.Nodup ∧
      ∀ {plan : Plan} {q : UInt64} {prior nodes : List OperatorNode} {free left : List Location}
        {root : OperatorNode}, free.Nodup → plan.bindOnto q prior free = (.ok root, nodes, left) →
          ∃ added, nodes = prior ++ added ∧ Staged q added ∧
            ∀ (keys : List String) (aggregates : List Aggregate) (ups team : List OperatorNode),
              GroupStage q added keys aggregates ups team → node ∈ ups →
                ∀ (k : Nat) (worker : OperatorNode), team[k]? = some worker →
                  worker.operator = groupWorker keys aggregates q k ∧ ∃ id, j.egress[k]? = some id ∧
                    (worker.location.name, id) ∈
                      grants name (run name (before ++ [Event.sent i])) during ∧
                    j.Carries keys team.length k id := by
  have hserves := (filling_run hnode hsent hnames hbroken halone).serves hnames hstart
  have honce := hserves.nodup ((grants_sublist _ _).nodup hown)
  refine ⟨hserves, honce, ?_⟩
  intro plan q prior nodes free left root hfree hbind
  obtain ⟨added, hnodes, hstaged⟩ := staged_bindOnto hfree hbind
  refine ⟨added, hnodes, hstaged, ?_⟩
  intro keys aggregates ups team hstage hwriter k worker hworker
  have hplace : node.outputs[k]? = some worker.location := by
    rw [(hstage.writers node hwriter).1, Plan.placesOf, List.getElem?_map, hworker]
    rfl
  obtain ⟨id, hid, hmem⟩ := hserves.mem hplace
  refine ⟨(hstage.workers k worker hworker).1, id, hid, hmem, ?_⟩
  rw [← hserves.node_eq] at hwriter
  exact hstage.carries hwriter (by rw [hserves.length, hserves.node_eq]) honce hid

/-- The node that deals numbers out to two workers. -/
def dealer : OperatorNode where
  location := ⟨"below", "host", 1⟩
  outputs := [⟨"one", "host", 1⟩, ⟨"two", "host", 1⟩]
  partitioning := .hash ["n"]
  operator := .scan
    { catalog := "c", schema := "s", table := "t", columns := dealtColumns, partitions := [0],
      filters := [] }

def dealerInstruction : Instruction := .ofNode 7 "c" "s" dealer

/-- The second worker comes first, and others come that are refused. -/
def dealerVisits : List Event :=
  [.request .setupWriters 1, .request (.openStream 7 ⟨"two", "host", 1⟩) 5,
    .request (.openStream 7 ⟨"two", "host", 1⟩) 6, .request (.openStream 8 ⟨"one", "host", 1⟩) 7,
    .request (.openStream 7 ⟨"top", "host", 1⟩) 8, .request .setupReaders 2, .dialled ⟨1, 7, []⟩ [],
    .request (.openStream 7 ⟨"one", "host", 1⟩) 9]

theorem dealerInstruction_node : dealerInstruction.node = .ok dealer :=
  Instruction.node_ofNode (by decide +kernel) _ _ _

theorem run_dealer (events : List Event) : run "below" (Event.sent dealerInstruction :: events) =
    events.foldl (step "below") (given 7 dealer) :=
  run_sent dealerInstruction_node rfl events

theorem outputs_reach_readers_dealer :
    (run "below" []).resets "below" (Event.sent dealerInstruction) = true ∧
    (dealer.outputs.map (·.name)).Nodup ∧
    Unbroken "below" [Event.sent dealerInstruction] dealerVisits ∧
    (∀ es, es <+: Event.sent dealerInstruction :: dealerVisits → (run "below" es).Alone) ∧
    (dealerVisits.filterMap opening).Nodup ∧
    ∃ slot j, (run "below" (Event.sent dealerInstruction :: dealerVisits)).slot.start = .ok (slot, j) ∧
      j.egress = [9, 5] ∧ j.Serves dealer [("two", 5), ("one", 9)] ∧
      j.Carries ["n"] 2 0 9 ∧ j.Carries ["n"] 2 1 5 := by
  have hreceive : (run "below" []).resets "below" (Event.sent dealerInstruction) = true :=
    resets_sent dealerInstruction_node rfl
  have hnames : (dealer.outputs.map (·.name)).Nodup := by decide
  have hbroken : Unbroken "below" [Event.sent dealerInstruction] dealerVisits :=
    unbroken_of_not_mayReset (by decide)
  have halone : ∀ es, es <+: Event.sent dealerInstruction :: dealerVisits → (run "below" es).Alone :=
    alone_of_inits dealerInstruction_node rfl (by decide +kernel)
  obtain ⟨slot, hstart⟩ : ∃ slot,
      (run "below" (Event.sent dealerInstruction :: dealerVisits)).slot.start =
        .ok (slot, ⟨1, dealer, [], [9, 5]⟩) := by
    rw [run_dealer]
    exact ⟨_, rfl⟩
  have hgrants : grants "below" (run "below" [Event.sent dealerInstruction]) dealerVisits =
      [("two", 5), ("one", 9)] := by
    rw [run_dealer]
    decide +kernel
  have hfree : dealtHosts.Nodup := by decide
  obtain ⟨root, hroot⟩ : ∃ root, dealtPlan.bindOnto 2 [] dealtHosts = (.ok root, dealtNodes, []) :=
    ⟨_, rfl⟩
  have hwriter : dealer ∈ dealtNodes.take 1 := by decide +kernel
  have hown : (dealerVisits.filterMap opening).Nodup := by decide
  have hgiven : (run "below" ([] ++ [Event.sent dealerInstruction] ++ dealerVisits)).slot.start =
      .ok (slot, ⟨1, dealer, [], [9, 5]⟩) := hstart
  obtain ⟨hserves, _, hplans⟩ :=
    outputs_reach_readers dealerInstruction_node hreceive hnames hbroken halone hown hgiven
  obtain ⟨added, hadded, _, hstages⟩ := hplans hfree hroot
  obtain rfl : dealtNodes = added := hadded
  obtain ⟨_, _, hnine, _, hfirst⟩ := hstages _ _ _ _ dealt_stage hwriter 0 _ rfl
  obtain ⟨_, _, hfive, _, hsecond⟩ := hstages _ _ _ _ dealt_stage hwriter 1 _ rfl
  cases hnine
  cases hfive
  rw [List.nil_append, hgrants] at hserves
  exact ⟨hreceive, hnames, hbroken, halone, hown, slot, _, hstart, rfl, hserves, hfirst, hsecond⟩

end Reaching

end QueryCluster
