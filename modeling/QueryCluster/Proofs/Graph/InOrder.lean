import QueryCluster.Proofs.Graph.Parallelism
import QueryCluster.Proofs.Graph.Traffic

/-!
# One after another is one way of side by side

A run in one place executes the nodes in order, each over complete streams. The same can be reached by the
nodes at work together: each in turn is started, is handed the streams it reads as a whole, and is through
before the next one starts.
-/
namespace QueryCluster

open Codec (lengthLimit)
open Plan (Joined placesOf)
open Relation (ReflTransGen)

namespace Post

variable {w : Workplace} {n : OperatorNode} {incoming incoming' : Location → Bytes} {p p' : Post}

theorem Acts.mono (h : Acts w n incoming p p') (hle : ∀ l, incoming l <+: incoming' l) :
    Acts w n incoming' p p' := by
  cases h with
  | start h => exact .start h
  | receive h hd => exact .receive h (hd.trans (hle _))
  | arrange h i => exact .arrange h i
  | write h hsized hl hdraft hbs => exact .write h hsized hl hdraft hbs
  | finish h hsized hsent hkept hothers => exact .finish h hsized hsent hkept hothers

theorem acts_sent_mono (h : ReflTransGen (Acts w n incoming) p p') (l : Location) :
    p.sent l <+: p'.sent l := by
  induction h with
  | refl => exact List.prefix_rfl
  | tail _ h ih => exact ih.trans (h.sent_mono l)

/-- Each of some inputs is handed over in one delivery. -/
theorem acts_receive (h : p.phase = .running) {ls : List Location} (hls : ls.Nodup)
    (hnone : ∀ l ∈ ls, p.arrived l = []) (b : Location → Bytes) (hb : ∀ l ∈ ls, b l <+: incoming l) :
    ReflTransGen (Acts w n incoming) p
      { p with arrived := fun l => if l ∈ ls then Source.ofBytes (b l) else p.arrived l } := by
  induction ls generalizing p with
  | nil => simpa using ReflTransGen.refl
  | cons l ls ih =>
    obtain ⟨hl, hls⟩ := List.nodup_cons.mp hls
    obtain ⟨hhead, htail⟩ := List.forall_mem_cons.mp hnone
    obtain ⟨hbhead, hbtail⟩ := List.forall_mem_cons.mp hb
    -- an input that gets no bytes needs no delivery
    by_cases he : b l = []
    · have hsame : (fun k => if k ∈ l :: ls then Source.ofBytes (b k) else p.arrived k) =
          fun k => if k ∈ ls then Source.ofBytes (b k) else p.arrived k := by
        funext k
        by_cases hk : k = l
        · rw [hk, if_pos List.mem_cons_self, if_neg hl, he, hhead]
          rfl
        · simp [hk]
      rw [hsame]
      exact ih h hls htail hbtail
    · have hfirst : Acts w n incoming p (p.receiving l (.data (b l))) := by
        refine .receive h ?_
        rw [hhead, List.nil_append, Source.bytes_data]
        simpa [Source.bytes] using hbhead
      refine .head hfirst ?_
      have hrest := ih (p := p.receiving l (.data (b l))) h hls (fun k hk => ?_) hbtail
      · have hsame : (fun k => if k ∈ l :: ls then Source.ofBytes (b k) else p.arrived k) =
            fun k => if k ∈ ls then Source.ofBytes (b k) else
              (p.receiving l (.data (b l))).arrived k := by
          funext k
          rw [arrived_receiving]
          by_cases hk : k = l
          · rw [hk, if_pos List.mem_cons_self, if_neg hl, if_pos rfl, hhead, Source.ofBytes,
              if_neg (by simpa using he), List.nil_append]
          · simp [hk]
        rw [hsame]
        exact hrest
      · rw [arrived_receiving, if_neg (fun hkl : k = l => hl (hkl ▸ hk))]
        exact htail k hk

theorem acts_arrange (h : p.phase = .running) (arrival : List Nat) :
    ReflTransGen (Acts w n incoming) p { p with arrival := p.arrival ++ arrival } := by
  induction arrival generalizing p with
  | nil =>
    rw [List.append_nil]
  | cons i arrival ih =>
    have hrest := ih (p := { p with arrival := p.arrival ++ [i] }) h
    rw [List.append_assoc] at hrest
    exact .head (.arrange h i) hrest

/-- A node gets through from its start when whole streams are handed to it. -/
theorem acts_through (arrival : List Nat) {b sent : Location → Bytes} (hinputs : n.inputs.Nodup)
    (hb : ∀ l ∈ n.inputs, b l <+: incoming l)
    (hp : p = { phase := .over, arrival, sent,
                arrived := fun l => if l ∈ n.inputs then Source.ofBytes (b l) else [] })
    (hsized : p.Sized w n)
    (hsent : ∀ (j : Nat) l, n.outputs[j]? = some l → (p.execution w n).sent[j]? = some (sent l))
    (hothers : ∀ l, l ∉ n.outputs → sent l = []) : ReflTransGen (Acts w n incoming) {} p := by
  subst hp
  refine .head (.start rfl) ?_
  refine (acts_receive rfl hinputs (fun _ _ => rfl) b hb).trans ?_
  refine (acts_arrange rfl arrival).trans ?_
  exact .single (@Acts.finish w n incoming
    { phase := .running, arrival,
      arrived := fun l => if l ∈ n.inputs then Source.ofBytes (b l) else [] }
    rfl hsized sent hsent (fun _ => List.nil_prefix) hothers)

end Post

namespace Traffic

variable {place : Location → Workplace} {nodes : List OperatorNode} {t : Traffic} {n : OperatorNode}

theorem steps_of_acts {p : Post} (hn : n ∈ nodes)
    (h : ReflTransGen (Post.Acts (place n.location) n fun l => (t l).sent n.location)
      (t n.location) p) :
    ReflTransGen (Step place nodes) t (Function.update t n.location p) := by
  induction h with
  | refl => rw [Function.update_eq_self]
  | @tail q q' hq hact ih =>
    refine ih.tail ?_
    -- what this node is sent has only grown by its own acts
    have hact' : Post.Acts (place n.location) n
        (fun l => (Function.update t n.location q l).sent n.location)
        (Function.update t n.location q n.location) q' := by
      rw [Function.update_self]
      refine hact.mono fun l => ?_
      by_cases hl : l = n.location
      · rw [hl, Function.update_self]
        exact Post.acts_sent_mono hq n.location
      · rw [Function.update_of_ne hl]
    have hstep : Step place nodes _ _ := .act hn hact'
    rwa [Function.update_idem] at hstep

end Traffic

namespace Progress

/-- What a node has taken in and sent at the end of a run. -/
def post (p : Progress) (arrival : List Nat) (n : OperatorNode) : Post where
  phase := .over
  arrived l :=
    if l ∈ n.inputs then Source.ofBytes ((p.sent l.name n.location.name).getD []) else []
  arrival
  sent l := if l ∈ n.outputs then (p.sent n.location.name l.name).getD [] else []

def posts (p : Progress) (arrivals : OperatorNode → List Nat) (nodes : List OperatorNode) : Traffic :=
  fun l => match nodes.find? (·.location = l) with
    | some n => p.post (arrivals n) n
    | none => {}

variable {w : Workplace} {arrivals : OperatorNode → List Nat} {p : Progress} {n : OperatorNode}
  {nodes : List OperatorNode}

theorem posts_of_mem (hplaces : (placesOf nodes).Nodup) (hn : n ∈ nodes) :
    p.posts arrivals nodes n.location = p.post (arrivals n) n := by
  obtain ⟨m, hm⟩ : ∃ m, nodes.find? (·.location = n.location) = some m :=
    Option.isSome_iff_exists.mp (List.find?_isSome.mpr ⟨n, hn, by simp⟩)
  have hloc : m.location = n.location := by simpa using List.find?_some hm
  obtain rfl := List.inj_on_of_nodup_map hplaces (List.mem_of_find?_eq_some hm) hn hloc
  rw [posts, hm]

theorem posts_of_not_mem {l : Location} (h : l ∉ placesOf nodes) : p.posts arrivals nodes l = {} := by
  have hnone : nodes.find? (·.location = l) = none :=
    List.find?_eq_none.mpr fun n hn => by
      simpa using fun he : n.location = l => h (he ▸ List.mem_map_of_mem hn)
  rw [posts, hnone]

theorem posts_concat (hn : n.location ∉ placesOf nodes) :
    p.posts arrivals (nodes ++ [n]) =
      Function.update (p.posts arrivals nodes) n.location (p.post (arrivals n) n) := by
  funext l
  by_cases hl : l = n.location
  · subst hl
    have hnone : nodes.find? (·.location = n.location) = none :=
      List.find?_eq_none.mpr fun m hm => by
        simpa using fun he : m.location = n.location => hn (he ▸ List.mem_map_of_mem hm)
    rw [Function.update_self, posts, List.find?_append, hnone]
    simp
  · rw [Function.update_of_ne hl, posts, posts, List.find?_append]
    simp [Ne.symm hl]

theorem feeds_post : (p.post (arrivals n) n).feeds n = n.feeds p.wires := by
  rw [Post.feeds, n.feeds_eq]
  refine List.map_congr_left fun l hl => ?_
  simp only [post, hl, if_true]
  rfl

theorem execution_post : (p.post (arrivals n) n).execution w n = n.executionIn w (arrivals n) p := by
  rw [Post.execution, feeds_post]
  rfl

/-- A node that has come to a good end has written to each of its outputs. -/
theorem exists_sent {x : Stats × Option Split}
    (hx : (n.executionIn w (arrivals n) p).outcome = .ok x) {j : Nat} {l : Location}
    (hl : n.outputs[j]? = some l) : ∃ bs, (n.executionIn w (arrivals n) p).sent[j]? = some bs := by
  have hj : j < n.outputs.length := (List.getElem?_eq_some_iff.mp hl).1
  have hroot : n.isRoot = false :=
    List.isEmpty_eq_false_iff.mpr (List.ne_nil_of_length_pos (Nat.lt_of_le_of_lt (Nat.zero_le j) hj))
  obtain ⟨stats, rows⟩ := x
  rcases hs : (n.operator.run w (arrivals n) (n.feeds p.wires)).schema with _ | schema
  · obtain ⟨e, he⟩ := Operator.run_unopened hs
    have hok := OperatorNode.outcome_of_execute hx
    rw [he] at hok
    cases hok
  · have hsent := (OperatorNode.execute_ok hroot (Nat.lt_of_le_of_lt (Nat.zero_le j) hj) hs hx).2
    rw [OperatorNode.executionIn, hsent, List.getElem?_map, List.getElem?_range hj]
    exact ⟨_, rfl⟩

/-- One node after another is through. -/
theorem reachable_posts {q : UInt64} {root : OperatorNode} (hj : Joined q nodes root)
    (hsolved : ∀ n ∈ nodes, n.Solved w (arrivals n) p)
    (hsized : ∀ n ∈ nodes,
      n.FramesWithin (lengthLimit - 1) w (arrivals n) (n.feeds p.wires) n.outputs.length)
    {front : List OperatorNode} (hfront : front <+: nodes) :
    Traffic.Reachable (fun _ => w) nodes (p.posts arrivals front) := by
  induction front using List.reverseRecOn with
  | nil => exact .refl
  | append_singleton front n ih =>
    obtain ⟨back, hback⟩ := hfront
    rw [List.append_assoc, List.singleton_append] at hback
    have hn : n ∈ nodes := hback ▸ List.mem_append_right _ List.mem_cons_self
    have hplaces : (placesOf front ++ n.location :: placesOf back).Nodup := by
      have h := hj.places
      rw [← hback, Plan.placesOf_append] at h
      exact h
    have hnew : n.location ∉ placesOf front := fun hmem =>
      (List.nodup_append.mp hplaces).2.2 _ hmem _ List.mem_cons_self rfl
    rw [posts_concat hnew]
    refine (ih ⟨n :: back, hback⟩).trans (Traffic.steps_of_acts hn ?_)
    rw [posts_of_not_mem hnew]
    -- whoever this node reads from stands in front of it and is through
    refine Post.acts_through (arrivals n) (hj.inputs n hn).1 (b := fun l =>
      (p.sent l.name n.location.name).getD []) (fun l hl => ?_) rfl ?_ (fun j l hl => ?_) fun l hl => ?_
    · obtain ⟨m, hm, rfl⟩ := Plan.mem_placesOf.mp (hj.earlier front n back hback.symm l hl)
      have hmnodes : m ∈ nodes := hback ▸ List.mem_append_left _ hm
      rw [posts_of_mem (List.nodup_append.mp hplaces).1 hm, post]
      simp only
      rw [if_pos ((hj.edges m hmnodes n hn).mp hl)]
    · have hfeeds : (p.post (arrivals n) n).feeds n = n.feeds p.wires := feeds_post
      show n.FramesWithin (lengthLimit - 1) w (arrivals n) ((p.post (arrivals n) n).feeds n) _
      rw [hfeeds]
      exact hsized n hn
    · obtain ⟨⟨x, hx⟩, hsent⟩ := hsolved n hn
      obtain ⟨bs, hbs⟩ := exists_sent hx hl
      have hexec : (p.post (arrivals n) n).execution w n = n.executionIn w (arrivals n) p :=
        execution_post
      show ((p.post (arrivals n) n).execution w n).sent[j]? = _
      rw [hexec, hbs, if_pos (List.mem_of_getElem? hl), hsent j l hl, hbs, Option.getD_some]
    · rw [if_neg hl]

end Progress

/-- What a run in one place comes to is reached by the nodes side by side. -/
theorem Graph.run_reachable {w : Workplace} {arrivals : OperatorNode → List Nat} {p : Progress}
    {g : Graph} {plan : Plan} {q : UInt64} {free : List Location} (hnames : (free.map (·.name)).Nodup)
    (hbind : (plan.bind q free).1 = .ok g) (hrun : g.run w arrivals = (p, none))
    (hsized : ∀ n ∈ g.nodes,
      n.FramesWithin (lengthLimit - 1) w (arrivals n) (n.feeds p.wires) n.outputs.length) :
    Traffic.Reachable (fun _ => w) g.nodes (p.posts arrivals g.nodes) ∧
      ∃ rows, (p.posts arrivals g.nodes g.root.location).Holds w g.root rows := by
  have hfree := List.Nodup.of_map _ hnames
  have hj := Plan.bind_joined hfree hbind
  obtain ⟨hwired, hplaces, hused⟩ := Plan.bind_wired hfree hbind
  have hsolved := runNodes_solved (arranged_of_wired hwired hplaces hused hnames) (by simp) hrun
  refine ⟨Progress.reachable_posts hj hsolved hsized List.prefix_rfl, ?_⟩
  have hroot : g.root.isRoot := List.isEmpty_iff.mpr ((hj.last.2 _ hj.last.1).mpr rfl)
  obtain ⟨⟨stats, rows⟩, hx⟩ := (hsolved _ hj.last.1).outcome
  obtain ⟨all, rfl, _⟩ := OperatorNode.root_execute_ok hroot hx
  rw [Progress.posts_of_mem hplaces hj.last.1]
  exact ⟨all, rfl, stats, Progress.execution_post ▸ hx⟩

end QueryCluster
