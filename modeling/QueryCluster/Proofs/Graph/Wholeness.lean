import QueryCluster.Proofs.Graph.InOrder

/-!
# Results stand for the whole graph

A fault travels along the edges as a missing end: a node that read all of its inputs to their ends had
sources that all came to good ends. So once the root holds rows, every node in front of it has done its
work to the last row, in whatever order the nodes acted and however their bytes were delivered.
-/
namespace QueryCluster

open Codec (lengthLimit)
open Plan (Edge Joined)
open Relation (ReflTransGen)
open StreamWriter (Endless Unended)

namespace Traffic

variable {place : Location → Workplace} {nodes : List OperatorNode} {t : Traffic} {n m : OperatorNode}

/-- Of a node that has not come to a good end, only unended streams are on their way. -/
theorem Sound.unended (hs : Sound place nodes t) (hn : n ∈ nodes)
    (h : ¬ (t n.location).Completed (place n.location) n) {l : Location} (hl : l ∈ n.outputs) :
    Unended ((t n.location).sent l) := by
  have hhonest := hs.honest n hn
  rcases hphase : (t n.location).phase with _ | _ | _
  · rw [hhonest.waiting hphase l]
    exact StreamWriter.unended_nil
  · exact hhonest.running hphase l hl
  · obtain ⟨hsized, hsent⟩ := hhonest.through hphase
    rcases hx : ((t n.location).execution (place n.location) n).outcome with e | x
    · obtain ⟨j, hj⟩ := List.mem_iff_getElem?.mp hl
      have hpos : 0 < n.outputs.length := List.length_pos_of_mem hl
      have hdraft := hsent j l hj
      rw [Post.execution, OperatorNode.sent_of_error hpos hx] at hdraft
      exact OperatorNode.draft_unended hpos hsized hdraft
    · exact absurd ⟨hphase, x, hx⟩ h

/-- Whoever writes to a node that came to a good end has come to one too. -/
theorem Sound.completed_source (hs : Sound place nodes t) (hn : n ∈ nodes) (hout : m.location ∈ n.outputs)
    (hin : n.location ∈ m.inputs) (hm : (t m.location).Completed (place m.location) m) :
    (t n.location).Completed (place n.location) n := by
  by_contra hnot
  have hfeed := (hs.unended hn hnot hout).not_ended (hs.carried m.location n.location)
  obtain ⟨_, x, hx⟩ := hm
  exact hfeed (OperatorNode.ended_of_execute hx _ (List.mem_map_of_mem hin))

theorem Sound.completed_upstream {p : UInt64} {root : OperatorNode} (hs : Sound place nodes t)
    (hj : Joined p nodes root) (hpath : ReflTransGen (Edge nodes) n m)
    (hm : (t m.location).Completed (place m.location) m) :
    (t n.location).Completed (place n.location) n := by
  induction hpath using ReflTransGen.head_induction_on with
  | refl => exact hm
  | head hedge _ ih =>
    obtain ⟨ha, hc, hout⟩ := hedge
    exact hs.completed_source ha hout ((hj.edges _ ha _ hc).mpr hout) ih

end Traffic

/-- A slot that takes a failure shows it, and nobody fetches rows from it. -/
theorem Slot.complete_error (s : Slot) (e : OperatorError) :
    (s.complete s.epoch (.error e)).state = .failed ∧
      (s.complete s.epoch (.error e)).results = s.results ∧
      ∀ task, ∃ fault, (s.complete s.epoch (.error e)).fetchResults task = .error fault := by
  have hcomplete : s.complete s.epoch (.error e) =
      { s with error := some e, state := .failed, live := [] } := by
    simp only [complete, ne_eq, not_true, if_false]
  rw [hcomplete]
  refine ⟨rfl, rfl, fun task => ?_⟩
  by_cases htask : s.task = some task
  · refine ⟨.notAllowed "fetch_results" (.state .failed), ?_⟩
    simp [fetchResults, requireTask, requireState, htask]
    rfl
  · refine ⟨.taskMismatch s.task task, ?_⟩
    simp [fetchResults, requireTask, htask]
    rfl

/-- No partial result passes for a complete one. An operator fails if an input breaks off anywhere, in
whatever order the splits come; its node then ends none of its streams and keeps no rows; and when the root
of a bound graph holds rows, all nodes of the graph, which all lead to it, have come to good ends. -/
theorem no_partial_results :
    (∀ (op : Operator) (w : Workplace) (arrival : List Nat) (inputs : List Feed),
      (∃ f ∈ inputs, f.Broken) → ∃ e, (op.run w arrival inputs).outcome = .error e) ∧
    (∀ (n : OperatorNode) (w : Workplace) (arrival : List Nat) (inputs : List Feed),
      (∃ f ∈ inputs, f.Broken) → ∃ e,
        (n.execute w arrival inputs n.outputs.length).outcome = .error e ∧
        (∀ bs ∈ (n.execute w arrival inputs n.outputs.length).sent, Endless bs) ∧
        ∀ s : Slot, s.results = none → ∀ s',
          s' = s.complete s.epoch
            ((n.execute w arrival inputs n.outputs.length).outcome.map Prod.snd) →
          s'.state = .failed ∧ s'.results = none ∧
            ∀ task, ∃ fault, s'.fetchResults task = .error fault) ∧
    ∀ (plan : Plan) (p : UInt64) (free : List Location) (g : Graph) (place : Location → Workplace)
      (t : Traffic) (rows : Split), free.Nodup → (plan.bind p free).1 = .ok g →
        Traffic.Reachable place g.nodes t →
        (t g.root.location).Holds (place g.root.location) g.root rows →
          ∀ n ∈ g.nodes, ReflTransGen (Edge g.nodes) n g.root ∧
            (t n.location).Completed (place n.location) n := by
  refine ⟨fun op w arrival inputs h => Operator.run_of_broken h, fun n w arrival inputs h => ?_, ?_⟩
  · obtain ⟨e, he⟩ := n.execute_of_broken w arrival n.outputs.length h
    refine ⟨e, he, OperatorNode.endless_of_error he, ?_⟩
    rintro s hnone s' rfl
    rw [he]
    obtain ⟨hstate, hresults, hfetch⟩ := s.complete_error e
    exact ⟨hstate, hresults.trans hnone, hfetch⟩
  · intro plan p free g place t rows hfree hbind hreach hholds n hn
    have hj := Plan.bind_joined hfree hbind
    obtain ⟨hover, stats, hx⟩ := hholds
    exact ⟨hj.reaches n hn,
      (hreach.sound hj.places).completed_upstream hj (hj.reaches n hn) ⟨hover, _, hx⟩⟩

/-- Two rows, and then the connection is gone. -/
def brokenHalf : Feed := { Feed.ofSplits halfColumns [half [1, 2]] with fault := some (.split .truncated) }

/-- A limit of one row fails over a broken input, and so does the root over it; the rows of two scans that
came to their ends arrive at a root. -/
theorem no_partial_results_halves :
    (∃ e, ((Operator.limit 1).run halvesWorkplace [] [brokenHalf]).outcome = .error e) ∧
    (∃ e, (halvesRoot.execute halvesWorkplace [1, 0]
      [brokenHalf, Feed.ofSplits halfColumns [half [3]]] halvesRoot.outputs.length).outcome = .error e) ∧
    ∃ t rows, Traffic.Reachable (fun _ => halvesWorkplace) halvesGraph.nodes t ∧
      (t halvesRoot.location).Holds halvesWorkplace halvesRoot rows ∧
      ∀ n ∈ halvesGraph.nodes, ReflTransGen (Edge halvesGraph.nodes) n halvesRoot ∧
        (t n.location).Completed halvesWorkplace n := by
  have hbroken : brokenHalf.Broken := .inr ⟨_, rfl⟩
  have hclear : (halvesGraph.run halvesWorkplace fun _ => []).2.isNone ∧ ∀ n ∈ halvesGraph.nodes,
      n.FramesWithin (lengthLimit - 1) halvesWorkplace []
        (n.feeds (halvesGraph.run halvesWorkplace fun _ => []).1.wires) n.outputs.length := by
    decide +kernel
  have hbind : (halvesPlan.bind 2 halvesHosts).1 = .ok halvesGraph := rfl
  obtain ⟨hreach, rows, hholds⟩ := Graph.run_reachable (by decide) hbind (Graph.run_clear hclear.1) hclear.2
  obtain ⟨hop, hnode, hgraph⟩ := no_partial_results
  obtain ⟨e, he, _⟩ := hnode halvesRoot halvesWorkplace [1, 0]
    [brokenHalf, Feed.ofSplits halfColumns [half [3]]] ⟨_, List.mem_cons_self, hbroken⟩
  exact ⟨hop (.limit 1) halvesWorkplace [] [brokenHalf] ⟨_, List.mem_cons_self, hbroken⟩, ⟨e, he⟩,
    _, rows, hreach, hholds,
    hgraph halvesPlan 2 halvesHosts halvesGraph (fun _ => halvesWorkplace) _ rows (by decide) hbind hreach
      hholds⟩

end QueryCluster
