import Mathlib.Logic.Function.Basic
import QueryCluster.Proofs.Graph.Edges
import QueryCluster.Proofs.Graph.Sending

/-!
# Nodes at work together

The nodes of a graph run side by side, each on its own. Bytes are on their way between them: a reader has some
of what was sent to it, in deliveries of any size, and has met interruptions and broken connections. At any
time a node that runs has sent no more than its operator makes of what has arrived so far, and no end; once
its operator is through, all of its outputs are written. No write fails here, but readers may be cut off.
-/
namespace QueryCluster

open Codec (lengthLimit)

/-- How far a node has come. -/
inductive Post.Phase where
  | waiting
  | running
  | over
  deriving DecidableEq, Repr

/-- What has come in at an executor from each sender, and what went out to each reader. -/
structure Post where
  phase : Post.Phase := .waiting
  arrived : Location → Source := fun _ => []
  /-- The order in which the splits of the inputs were taken. -/
  arrival : List Nat := []
  sent : Location → Bytes := fun _ => []

namespace Post

def feeds (p : Post) (n : OperatorNode) : List Feed :=
  n.inputs.map fun l => Feed.ofStream { source := p.arrived l }

/-- What executing the node over all that has arrived comes to. -/
def execution (w : Workplace) (n : OperatorNode) (p : Post) : Execution :=
  n.execute w p.arrival (p.feeds n) n.outputs.length

def draft (w : Workplace) (n : OperatorNode) (p : Post) : List Bytes :=
  n.draft w p.arrival (p.feeds n) n.outputs.length

/-- The lengths of all frames are 64-bit words. -/
def Sized (w : Workplace) (n : OperatorNode) (p : Post) : Prop :=
  n.FramesWithin (lengthLimit - 1) w p.arrival (p.feeds n) n.outputs.length

/-- The node has come to a good end. -/
def Completed (w : Workplace) (n : OperatorNode) (p : Post) : Prop :=
  p.phase = .over ∧ ∃ x, (p.execution w n).outcome = .ok x

/-- The node has come to a good end and keeps its rows. -/
def Holds (w : Workplace) (n : OperatorNode) (p : Post) (rows : Split) : Prop :=
  p.phase = .over ∧ ∃ stats, (p.execution w n).outcome = .ok (stats, some rows)

def receiving (p : Post) (l : Location) (d : Delivery) : Post :=
  { p with arrived := Function.update p.arrived l (p.arrived l ++ [d]) }

def writing (p : Post) (l : Location) (bs : Bytes) : Post :=
  { p with sent := Function.update p.sent l (p.sent l ++ bs) }

theorem arrived_receiving (p : Post) (l k : Location) (d : Delivery) :
    (p.receiving l d).arrived k = if k = l then p.arrived l ++ [d] else p.arrived k :=
  Function.update_apply ..

theorem sent_writing (p : Post) (l k : Location) (bs : Bytes) :
    (p.writing l bs).sent k = if k = l then p.sent l ++ bs else p.sent k :=
  Function.update_apply ..

/-- What a node can do next, when so much has been sent to it. -/
inductive Acts (w : Workplace) (n : OperatorNode) (incoming : Location → Bytes) (p : Post) : Post → Prop
  | start (h : p.phase = .waiting) : Acts w n incoming p { p with phase := .running }
  | receive (h : p.phase = .running) {l : Location} {d : Delivery}
      (hd : Source.bytes (p.arrived l ++ [d]) <+: incoming l) :
      Acts w n incoming p (p.receiving l d)
  | arrange (h : p.phase = .running) (i : Nat) :
      Acts w n incoming p { p with arrival := p.arrival ++ [i] }
  | write (h : p.phase = .running) (hsized : p.Sized w n) {j : Nat} {l : Location} {bs whole : Bytes}
      (hl : n.outputs[j]? = some l) (hdraft : (p.draft w n)[j]? = some whole)
      (hbs : p.sent l ++ bs <+: whole) :
      Acts w n incoming p (p.writing l bs)
  | finish (h : p.phase = .running) (hsized : p.Sized w n) {sent : Location → Bytes}
      (hsent : ∀ (j : Nat) l, n.outputs[j]? = some l → (p.execution w n).sent[j]? = some (sent l))
      (hkept : ∀ l, p.sent l <+: sent l) (hothers : ∀ l, l ∉ n.outputs → sent l = p.sent l) :
      Acts w n incoming p { p with phase := .over, sent }

variable {w : Workplace} {n : OperatorNode} {incoming : Location → Bytes} {p p' : Post}

/-- Nothing that was sent is taken back. -/
theorem Acts.sent_mono (h : Acts w n incoming p p') (l : Location) : p.sent l <+: p'.sent l := by
  cases h with
  | start | receive | arrange => exact List.prefix_rfl
  | @write _ _ j k bs whole hl hdraft hbs =>
    rw [sent_writing]
    split
    · rename_i hlk
      rw [hlk]
      exact List.prefix_append _ _
    · exact List.prefix_rfl
  | finish _ _ _ hkept => exact hkept l

theorem Acts.arrived_prefix (h : Acts w n incoming p p')
    (hp : ∀ l, (p.arrived l).bytes <+: incoming l) (l : Location) :
    (p'.arrived l).bytes <+: incoming l := by
  cases h with
  | start | arrange | write | finish => exact hp l
  | @receive _ k d hd =>
    rw [arrived_receiving]
    split
    · rename_i hlk
      rw [hlk]
      exact hd
    · exact hp l

/-- A node sends ends only when it is through, and then all that it has to send. -/
structure Honest (w : Workplace) (n : OperatorNode) (p : Post) : Prop where
  waiting : p.phase = .waiting → ∀ l, p.sent l = []
  running : p.phase = .running → ∀ l ∈ n.outputs, StreamWriter.Unended (p.sent l)
  through : p.phase = .over → p.Sized w n ∧
    ∀ (j : Nat) l, n.outputs[j]? = some l → (p.execution w n).sent[j]? = some (p.sent l)

theorem honest_start : Honest w n {} := ⟨fun _ _ => rfl, nofun, nofun⟩

theorem honest_of_running (h : p.phase = .running)
    (hs : ∀ l ∈ n.outputs, StreamWriter.Unended (p.sent l)) : Honest w n p where
  waiting hw := nomatch h.symm.trans hw
  running _ := hs
  through ho := nomatch h.symm.trans ho

theorem Honest.acts (hp : Honest w n p) (h : Acts w n incoming p p') : Honest w n p' := by
  cases h with
  | start h =>
    refine honest_of_running rfl fun l _ => ?_
    show StreamWriter.Unended (p.sent l)
    rw [hp.waiting h l]
    exact StreamWriter.unended_nil
  | receive h | arrange h => exact honest_of_running h (hp.running h)
  | @write h hsized j k bs whole hl hdraft hbs =>
    refine honest_of_running h fun l hmem => ?_
    have hpos : 0 < n.outputs.length := List.length_pos_of_mem hmem
    rw [sent_writing]
    split
    · exact (OperatorNode.draft_unended hpos hsized hdraft).of_isPrefix hbs
    · exact hp.running h l hmem
  | finish h hsized hsent => exact ⟨nofun, nofun, fun _ => ⟨hsized, hsent⟩⟩

end Post

/-- All executors of a graph. -/
abbrev Traffic := Location → Post

namespace Traffic

/-- One node does something. -/
inductive Step (place : Location → Workplace) (nodes : List OperatorNode) (t : Traffic) : Traffic → Prop
  | act {n : OperatorNode} {p : Post} (hn : n ∈ nodes)
      (h : Post.Acts (place n.location) n (fun l => (t l).sent n.location) (t n.location) p) :
      Step place nodes t (Function.update t n.location p)

/-- What a graph can come to when its nodes are started, whoever acts when. -/
def Reachable (place : Location → Workplace) (nodes : List OperatorNode) (t : Traffic) : Prop :=
  Relation.ReflTransGen (Step place nodes) (fun _ => {}) t

variable {place : Location → Workplace} {nodes : List OperatorNode} {t t' : Traffic}

/-- What has arrived was sent, and all nodes are honest. -/
structure Sound (place : Location → Workplace) (nodes : List OperatorNode) (t : Traffic) : Prop where
  carried : ∀ m l, ((t m).arrived l).bytes <+: (t l).sent m
  honest : ∀ n ∈ nodes, (t n.location).Honest (place n.location) n

theorem Sound.step (hplaces : (Plan.placesOf nodes).Nodup) (hs : Sound place nodes t)
    (h : Step place nodes t t') : Sound place nodes t' := by
  cases h with
  | @act n p hn h =>
    have hmono : ∀ l m, (t l).sent m <+: (Function.update t n.location p l).sent m := by
      intro l m
      by_cases hl : l = n.location
      · subst hl
        rw [Function.update_self]
        exact h.sent_mono m
      · rw [Function.update_of_ne hl]
    refine ⟨fun m l => ?_, fun m hm => ?_⟩
    · refine List.IsPrefix.trans ?_ (hmono l m)
      by_cases hmn : m = n.location
      · subst hmn
        rw [Function.update_self]
        exact h.arrived_prefix (fun l => hs.carried n.location l) l
      · rw [Function.update_of_ne hmn]
        exact hs.carried m l
    · by_cases hmn : m.location = n.location
      · obtain rfl := List.inj_on_of_nodup_map hplaces hm hn hmn
        rw [Function.update_self]
        exact (hs.honest m hm).acts h
      · rw [Function.update_of_ne hmn]
        exact hs.honest m hm

theorem Reachable.sound (hplaces : (Plan.placesOf nodes).Nodup) (h : Reachable place nodes t) :
    Sound place nodes t := by
  induction h with
  | refl => exact ⟨fun _ _ => List.prefix_rfl, fun _ _ => Post.honest_start⟩
  | tail _ hstep ih => exact ih.step hplaces hstep

end Traffic
end QueryCluster
