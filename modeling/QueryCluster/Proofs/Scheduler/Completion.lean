import Mathlib.Algebra.Ring.Nat
import QueryCluster.Proofs.Scheduler.Dispatching

/-!
# Dispatch ends well

Every step of a call, and every turn to the next phase, lessens what is left of a dispatch. So a
dispatch in which all calls keep going on comes to its end, in whatever order they take their steps.
By then every node of the graph has been started once, and every edge is one stream that stands at
its place among the outputs of its writer and among the inputs of its reader.
-/
namespace QueryCluster

/-- How many phases come after one. -/
def Phase.after : Phase → Nat
  | .sendInstruction => 3
  | .setupWriters => 2
  | .setupReaders => 1
  | .run => 0

/-- How many steps a call has still to go if its node has so many inputs. -/
def Progression.left (inputs : Nat) : Phase → Progression → Nat
  | _, answered _ => 0
  | _, dialling _ _ rest => rest.length + 1
  | .setupReaders, waiting => inputs + 2
  | _, waiting => 1

theorem Progression.left_waiting_le (inputs : Nat) (phase : Phase) :
    Progression.waiting.left inputs phase ≤ inputs + 2 := by
  cases phase <;> simp [left]

theorem Progression.left_pos {c : Progression} (h : ∀ x, c ≠ answered x) (inputs : Nat)
    (phase : Phase) : 0 < c.left inputs phase := by
  cases c with
  | waiting => cases phase <;> simp [left]
  | dialling => simp [left]
  | answered x => exact absurd rfl (h x)

/-- What the calls of one phase may take. -/
def callBudget (ns : List OperatorNode) : Nat := (ns.map fun n => n.inputs.length + 2).sum

namespace Rollout

/-- How many steps are left of the calls of a phase. -/
def callsLeft (phase : Phase) (ns : List OperatorNode) (calls : List Progression) : Nat :=
  (List.zipWith (fun n c => c.left n.inputs.length phase) ns calls).sum

/-- A bound on the steps that are left of a dispatch. -/
def left (ns : List OperatorNode) (r : Rollout) : Nat :=
  callsLeft r.phase ns r.calls + r.phase.after * (callBudget ns + 1)

section Measure

variable {phase : Phase} {ns : List OperatorNode} {calls : List Progression} {k : Nat}
  {n : OperatorNode} {c c' : Progression}

theorem callsLeft_set (hn : ns[k]? = some n) (hc : calls[k]? = some c)
    (hless : c'.left n.inputs.length phase < c.left n.inputs.length phase) :
    callsLeft phase ns (calls.set k c') < callsLeft phase ns calls := by
  induction ns generalizing calls k with
  | nil => cases hn
  | cons m ns ih =>
    cases calls with
    | nil => cases hc
    | cons d calls =>
      cases k with
      | zero =>
        obtain rfl : m = n := Option.some.inj hn
        obtain rfl : d = c := Option.some.inj hc
        simp only [callsLeft, List.set_cons_zero, List.zipWith_cons_cons, List.sum_cons]
        omega
      | succ k =>
        have hrest := @ih calls k hn hc
        simp only [callsLeft, List.set_cons_succ, List.zipWith_cons_cons, List.sum_cons] at hrest ⊢
        omega

theorem callsLeft_waiting_le (phase : Phase) (ns : List OperatorNode) (calls : List Progression) :
    callsLeft phase ns (calls.map fun _ => .waiting) ≤ callBudget ns := by
  induction ns generalizing calls with
  | nil => exact Nat.le_refl 0
  | cons m ns ih =>
    cases calls with
    | nil => exact Nat.zero_le _
    | cons d calls =>
      have hrest := ih calls
      have hfirst := Progression.left_waiting_le m.inputs.length phase
      simp only [callsLeft, callBudget, List.map_cons, List.zipWith_cons_cons, List.sum_cons]
        at hrest ⊢
      omega

theorem answered_of_callsLeft (h : callsLeft phase ns calls = 0) (hn : ns[k]? = some n)
    (hc : calls[k]? = some c) : ∃ x, c = .answered x := by
  by_contra hnone
  have hless : Progression.left n.inputs.length phase (.answered (.ok ())) <
      c.left n.inputs.length phase := by
    have hpos := Progression.left_pos (fun x hx => hnone ⟨x, hx⟩) n.inputs.length phase
    cases phase <;> exact hpos
  have := callsLeft_set hn hc hless
  omega

theorem callsLeft_of_isFine (phase : Phase) (ns : List OperatorNode)
    (h : calls.all Progression.isFine) : callsLeft phase ns calls = 0 := by
  induction ns generalizing calls with
  | nil => rfl
  | cons m ns ih =>
    cases calls with
    | nil => rfl
    | cons d calls =>
      rw [List.all_cons, Bool.and_eq_true] at h
      obtain ⟨hfirst, hrest⟩ := h
      cases d with
      | waiting | dialling => cases hfirst
      | answered x =>
        have hnone : Progression.left m.inputs.length phase (.answered x) = 0 := by
          cases phase <;> rfl
        rw [callsLeft, List.zipWith_cons_cons, List.sum_cons, hnone, Nat.zero_add]
        exact ih hrest

end Measure

variable {task : TaskId} {ns : List OperatorNode} {host : Location → Nat} {r : Rollout}
  {nodes : List Assignment} {w : World Network}

/-- An event that changes nothing in how far the calls have come. -/
def Idle (r : Rollout) : Event → Prop
  | .call k => ∀ c, r.calls[k]? = some c → ∃ x, c = .answered x
  | .job _ _ => True
  | .turn => r.phase = .run ∨ ¬ r.calls.all Progression.isFine

/-- Two dispatches whose calls have come as far. -/
structure Abreast (r r' : Rollout) : Prop where
  phase : r'.phase = r.phase
  calls : r'.calls = r.calls

theorem Abreast.idle {r' : Rollout} (h : r.Abreast r') {event : Event} :
    r'.Idle event ↔ r.Idle event := by
  cases event <;> simp only [Idle, h.phase, h.calls]

theorem Abreast.left {r' : Rollout} (h : r.Abreast r') : left ns r' = left ns r := by
  simp only [Rollout.left, h.phase, h.calls]

theorem left_set {k : Nat} {n : OperatorNode} {c c' : Progression} {r' : Rollout}
    (hn : ns[k]? = some n) (hc : r.calls[k]? = some c) (hphase : r'.phase = r.phase)
    (hcalls : r'.calls = r.calls.set k c')
    (hless : c'.left n.inputs.length r.phase < c.left n.inputs.length r.phase) :
    left ns r' < left ns r := by
  have := callsLeft_set hn hc hless
  simp only [left, hphase, hcalls]
  omega

namespace Sound

/-- The first step of a call answers it or lets it dial its inputs. -/
theorem left_request (h : r.Sound task ns host) {k : Nat} {n : OperatorNode}
    (hn : ns[k]? = some n) (hc : r.calls[k]? = some .waiting) (a : Assignment) (v : Worker) :
    left ns (r.request k a (host n.location) v) < left ns r := by
  have hanswer : ∀ x : Except ExecutorError Unit × Network, left ns (r.answer k x) < left ns r :=
    fun x => left_set hn hc rfl rfl (by cases r.phase <;> simp [Progression.left])
  have hstands := h.stands k n _ hn hc
  cases hphase : r.phase with
  | sendInstruction | setupWriters =>
    simp only [request, hphase]
    exact hanswer _
  | run =>
    simp only [request, hphase]
    exact hanswer (r.network.start (host n.location) v)
  | setupReaders =>
    rw [hphase] at hstands
    obtain ⟨hholds, hstate, _⟩ := hstands
    simp only [request, hphase, Slot.beginReaders_ok hholds.task hholds.node hstate]
    refine left_set hn hc hphase.symm rfl ?_
    rw [hphase]
    exact Nat.lt_succ_self _

theorem left_dial {k : Nat} {n : OperatorNode} {d : Dialling} {opened : List StreamId}
    {rest : List Location} (hn : ns[k]? = some n)
    (hc : r.calls[k]? = some (.dialling d opened rest)) (i : Nat) (v : Worker) :
    left ns (r.dial k i v d opened rest) < left ns r := by
  have hanswer : ∀ x : Except ExecutorError Unit × Network, left ns (r.answer k x) < left ns r :=
    fun x => left_set hn hc rfl rfl (by cases r.phase <;> simp [Progression.left])
  cases rest with
  | nil =>
    rw [dial]
    split <;> exact hanswer _
  | cons l rest =>
    rw [dial]
    split
    · exact hanswer _
    · refine left_set hn hc rfl rfl ?_
      cases r.phase <;> simp [Progression.left]

theorem left_turn (r : Rollout) : left ns r.turn < left ns r ∨ r.Abreast r.turn ∧ r.Idle .turn := by
  rw [Rollout.turn]
  split
  · rename_i phase hnext
    split
    · left
      have hafter : r.phase.after = phase.after + 1 := by
        cases hphase : r.phase
        all_goals
          rw [hphase] at hnext
          cases hnext
        all_goals rfl
      have hcalls := callsLeft_waiting_le phase ns r.calls
      simp only [Rollout.left, hafter, Nat.add_mul]
      omega
    · rename_i hfine
      exact .inr ⟨⟨rfl, rfl⟩, .inr hfine⟩
  · rename_i hnone
    refine .inr ⟨⟨rfl, rfl⟩, .inl ?_⟩
    cases hphase : r.phase with
    | run => rfl
    | sendInstruction | setupWriters | setupReaders =>
      rw [hphase] at hnone
      cases hnone

/-- An event lessens what is left, unless it has nothing to do. -/
theorem left_act (h : r.Sound task ns host) (hm : Meant task ns nodes) (event : Event) :
    left ns (r.act nodes event) < left ns r ∨ r.Abreast (r.act nodes event) ∧ r.Idle event := by
  cases event with
  | turn => exact left_turn r
  | job k e =>
    refine .inr ⟨?_, trivial⟩
    simp only [Rollout.act, Rollout.endJob]
    split <;> exact ⟨rfl, rfl⟩
  | call k =>
    simp only [Rollout.act]
    rcases hn : ns[k]? with _ | n
    · have hnone := h.call_eq_none hn
      refine .inr ⟨?_, fun c hc => by rw [hnone] at hc; cases hc⟩
      rw [Rollout.call, hnone]
      cases nodes[k]? <;> exact ⟨rfl, rfl⟩
    obtain ⟨a, ha, hmeant⟩ := hm.at hn
    obtain ⟨c, hc⟩ := h.exists_call hn
    obtain ⟨v, _, _, hcall⟩ := h.call_eq ha hn hmeant hc
    rw [hcall]
    cases c with
    | waiting => exact .inl (h.left_request hn hc a v)
    | dialling d opened rest => exact .inl (left_dial hn hc _ v)
    | answered x =>
      refine .inr ⟨⟨rfl, rfl⟩, fun c hc' => ⟨x, ?_⟩⟩
      exact Option.some.inj (hc'.symm.trans hc)

theorem left_run (h : r.Sound task ns host) (hr : Roster ns) (hm : Meant task ns nodes)
    (events : List Event) : left ns (r.run nodes events) < left ns r ∨
      r.Abreast (r.run nodes events) ∧ ∀ event ∈ events, r.Idle event := by
  induction events generalizing r with
  | nil => exact .inr ⟨⟨rfl, rfl⟩, fun _ h => by cases h⟩
  | cons event events ih =>
    have hrest := ih (h.act hr hm event)
    rw [Rollout.run, List.foldl_cons]
    rcases h.left_act hm event with hless | ⟨hsame, hidle⟩
    · rcases hrest with hrest | ⟨hrest, _⟩
      · exact .inl (Nat.lt_trans hrest hless)
      · exact .inl (lt_of_eq_of_lt hrest.left hless)
    · rcases hrest with hrest | ⟨hrest, hothers⟩
      · exact .inl (lt_of_lt_of_eq hrest hsame.left)
      · refine .inr ⟨⟨hrest.phase.trans hsame.phase, hrest.calls.trans hsame.calls⟩, ?_⟩
        exact List.forall_mem_cons.mpr ⟨hidle, fun e he => hsame.idle.mp (hothers e he)⟩

/-- Calls that have all been answered have been answered well. -/
theorem all_isFine (h : r.Sound task ns host)
    (hanswered : ∀ (k : Nat) (c : Progression), r.calls[k]? = some c → ∃ x, c = .answered x) :
    r.calls.all Progression.isFine := by
  rw [List.all_eq_true]
  intro c hc
  obtain ⟨k, hk⟩ := List.getElem?_of_mem hc
  obtain ⟨x, rfl⟩ := hanswered k c hk
  obtain ⟨n, hn⟩ := h.exists_node hk
  rw [h.answer_ok hn hk]
  rfl

theorem isComplete_iff (h : r.Sound task ns host) : r.isComplete ↔ left ns r = 0 := by
  constructor
  · intro hcomplete
    rw [isComplete, Bool.and_eq_true, decide_eq_true_eq] at hcomplete
    obtain ⟨hrun, hall⟩ := hcomplete
    rw [left, hrun]
    exact Nat.add_eq_zero_iff.mpr ⟨callsLeft_of_isFine _ ns hall, Nat.zero_mul _⟩
  · intro hzero
    obtain ⟨hcalls, hafter⟩ := Nat.add_eq_zero_iff.mp hzero
    have hrun : r.phase = .run := by
      rcases Nat.mul_eq_zero.mp hafter with hafter | hbudget
      · cases hphase : r.phase with
        | run => rfl
        | sendInstruction | setupWriters | setupReaders =>
          rw [hphase] at hafter
          cases hafter
      · cases hbudget
    rw [isComplete, hrun, decide_eq_true rfl, Bool.true_and]
    refine h.all_isFine fun k c hc => ?_
    obtain ⟨n, hn⟩ := h.exists_node hc
    exact answered_of_callsLeft hcalls hn hc

end Sound

/-- Events among which every call goes on and a new phase may begin. -/
structure Round (m : Nat) (events : List Event) : Prop where
  calls : ∀ k < m, Event.call k ∈ events
  turn : Event.turn ∈ events

namespace Sound

/-- A round brings a dispatch further that is not complete. -/
theorem left_round (h : r.Sound task ns host) (hr : Roster ns) (hm : Meant task ns nodes)
    {events : List Event} (hround : Round ns.length events) :
    left ns (r.run nodes events) < left ns r ∨ left ns (r.run nodes events) = 0 := by
  rcases h.left_run hr hm events with hless | ⟨hsame, hidle⟩
  · exact .inl hless
  · have hanswered : ∀ (k : Nat) (c : Progression), r.calls[k]? = some c →
        ∃ x, c = .answered x := fun k c hc =>
      hidle _ (hround.calls k (h.calls ▸ (List.getElem?_eq_some_iff.mp hc).1)) c hc
    have hall := h.all_isFine hanswered
    have hrun : r.phase = .run := (hidle _ hround.turn).resolve_right fun hnot => hnot hall
    refine .inr (hsame.left.trans (h.isComplete_iff.mp ?_))
    rw [isComplete, hrun, decide_eq_true rfl, hall]
    rfl

/-- Enough rounds complete a dispatch. -/
theorem rounds (h : r.Sound task ns host) (hr : Roster ns) (hm : Meant task ns nodes)
    {all : List (List Event)} (hrounds : ∀ events ∈ all, Round ns.length events)
    (henough : left ns r ≤ all.length) : (r.run nodes all.flatten).isComplete := by
  induction all generalizing r with
  | nil => exact h.isComplete_iff.mpr (Nat.le_zero.mp henough)
  | cons events all ih =>
    rw [List.flatten_cons, run_append]
    obtain ⟨hround, hrounds⟩ := List.forall_mem_cons.mp hrounds
    refine ih (h.run hr hm events) hrounds ?_
    rw [List.length_cons] at henough
    rcases h.left_round hr hm hround with hless | hzero
    · omega
    · omega

end Sound
end Rollout
end QueryCluster
