import Mathlib.Data.List.Nodup
import QueryCluster.Proofs.Scheduler.Lists
import QueryCluster.Proofs.Scheduler.Logging

/-!
# Phases one after the other

The calls of a phase go to each executor once, and only after all calls of the phases before were answered
well. In sequence the calls follow the graph up to the first failure; in parallel a phase makes all its
calls, in any order. Either way it is known in the end who has been sent an instruction.
-/
namespace QueryCluster

open Exchange (Chain asked)
open World (faultOf note_withLog)

/-- A call that failed, with its fault. -/
abbrev Refusal := Errand × Location × RpcError

def DispatchFailure.refusal (f : DispatchFailure) : Refusal := (.phase f.phase, f.location, f.error)

def PhaseResult.refusal? (phase : Phase) (r : PhaseResult) : Option Refusal :=
  r.failure.map fun (l, e) => (.phase phase, l, e)

def refusalOf : Except DispatchFailure Unit → Option Refusal
  | .ok _ => none
  | .error f => some f.refusal

/-- The calls of a plan, in order, up to the first that fails. -/
inductive Cut : List (Errand × Location) → Option Refusal → List Exchange → Prop
  | nil : Cut [] none []
  | answered {plan : List (Errand × Location)} {f : Option Refusal} {log : List Exchange} {e : Exchange}
      (he : e.fault = none) (h : Cut plan f log) : Cut (e.call :: plan) f (e :: log)
  | refused {e : Exchange} {error : RpcError} (he : e.fault = some error)
      (plan : List (Errand × Location)) : Cut (e.call :: plan) (some (e.errand, e.executor, error)) [e]

namespace Cut

variable {plan plan' : List (Errand × Location)} {f : Option Refusal} {log log' : List Exchange}

theorem isPrefix (h : Cut plan f log) : log.map Exchange.call <+: plan := by
  induction h with
  | nil => exact List.prefix_rfl
  | answered _ _ ih => exact List.prefix_cons_inj _ |>.mpr ih
  | refused => exact List.prefix_cons_inj _ |>.mpr List.nil_prefix

theorem whole (h : Cut plan f log) (hf : f = none) :
    log.map Exchange.call = plan ∧ ∀ e ∈ log, e.fault = none := by
  induction h with
  | nil => exact ⟨rfl, List.forall_mem_nil _⟩
  | answered he _ ih =>
    obtain ⟨hcalls, hfine⟩ := ih hf
    exact ⟨congrArg (_ :: ·) hcalls, List.forall_mem_cons.mpr ⟨he, hfine⟩⟩
  | refused => cases hf

/-- Only the last call may have failed. -/
theorem last (h : Cut plan f log) {r : Errand} {l : Location} {error : RpcError}
    (hf : f = some (r, l, error)) : ∃ front e, log = front ++ [e] ∧
      (∀ d ∈ front, d.fault = none) ∧ e.call = (r, l) ∧ e.fault = some error := by
  induction h with
  | nil => cases hf
  | @answered _ _ _ e he _ ih =>
    obtain ⟨front, last, rfl, hfront, hlast⟩ := ih hf
    exact ⟨e :: front, last, rfl, List.forall_mem_cons.mpr ⟨he, hfront⟩, hlast⟩
  | @refused e _ he =>
    cases hf
    exact ⟨[], e, rfl, List.forall_mem_nil _, rfl, he⟩

theorem fine_dropLast (h : Cut plan f log) : ∀ e ∈ log.dropLast, e.fault = none := by
  rcases f with _ | ⟨errand, l, error⟩
  · exact fun e he => (h.whole rfl).2 e ((List.dropLast_sublist log).subset he)
  · obtain ⟨front, e, rfl, hfront, _⟩ := h.last rfl
    rwa [List.dropLast_concat]

theorem whole_of_fine (h : Cut plan f log) (hfine : ∀ e ∈ log, e.fault = none) :
    log.map Exchange.call = plan := by
  rcases f with _ | ⟨errand, l, error⟩
  · exact (h.whole rfl).1
  · obtain ⟨front, e, rfl, _, _, hfault⟩ := h.last rfl
    have hfine := hfine e (List.mem_append_right _ (List.mem_singleton_self e))
    cases hfault.symm.trans hfine

theorem append (h : Cut plan f log) (hf : f = none) {f' : Option Refusal} (h' : Cut plan' f' log') :
    Cut (plan ++ plan') f' (log ++ log') := by
  induction h with
  | nil => exact h'
  | answered he _ ih => exact .answered he (ih hf)
  | refused => cases hf

theorem stop (h : Cut plan f log) (hf : f ≠ none) (rest : List (Errand × Location)) :
    Cut (plan ++ rest) f log := by
  induction h with
  | nil => exact absurd rfl hf
  | answered he _ ih => exact .answered he (ih hf)
  | refused he plan => exact .refused he (plan ++ rest)

end Cut

/-- The calls that a phase made. -/
structure PhaseLog (phase : Phase) (nodes : List Assignment) (r : PhaseResult) (log : List Exchange) :
    Prop where
  errand : ∀ e ∈ log, e.errand = .phase phase
  within : (log.map (·.executor)).Subperm (nodes.map (·.location))
  called : r.called.Perm (log.map (·.executor))
  whole : r.failure = none →
    (log.map (·.executor)).Perm (nodes.map (·.location)) ∧ ∀ e ∈ log, e.fault = none
  failure : ∀ l error, r.failure = some (l, error) →
    ∃ e ∈ log, e.call = (.phase phase, l) ∧ e.fault = some error

/-- Calls that bear the numbers of their nodes, and the faults that came of them. -/
structure Numbered (phase : Phase) (nodes : List Assignment) (order : List Nat)
    (faults : List (Nat × RpcError)) (calls : List (Nat × Exchange)) : Prop where
  faults_eq : faults = calls.filterMap fun x => x.2.fault.map (x.1, ·)
  numbers : calls.map Prod.fst = order.filter (· < nodes.length)
  called : ∀ x ∈ calls, ∃ a, nodes[x.1]? = some a ∧ x.2.call = (.phase phase, a.location)

namespace Numbered

variable {phase : Phase} {nodes : List Assignment} {order named : List Nat}
  {faults : List (Nat × RpcError)} {calls : List (Nat × Exchange)}

theorem mem_faults (h : Numbered phase nodes order faults calls) {i : Nat} {error : RpcError} :
    (i, error) ∈ faults ↔ ∃ e, (i, e) ∈ calls ∧ e.fault = some error := by
  rw [h.faults_eq, List.mem_filterMap]
  constructor
  · rintro ⟨⟨j, e⟩, hx, hfault⟩
    obtain ⟨_, hfault, heq⟩ := Option.map_eq_some_iff.mp hfault
    cases heq
    exact ⟨e, hx, hfault⟩
  · rintro ⟨e, hx, hfault⟩
    exact ⟨(i, e), hx, by rw [hfault]; rfl⟩

/-- Where all numbers come up once, so do all executors. -/
theorem executors_perm (h : Numbered phase nodes (Client.callOrder named nodes.length) faults calls) :
    ((calls.map Prod.snd).map (·.executor)).Perm (nodes.map (·.location)) := by
  obtain ⟨hnodup, hmem⟩ := Client.callOrder_spec named nodes.length
  have hnumbers := h.numbers
  rw [List.filter_eq_self.mpr fun i hi => decide_eq_true ((hmem i).mp hi)] at hnumbers
  have hcalled : ((calls.map Prod.snd).map (·.executor)).map some =
      (calls.map Prod.fst).map fun i => nodes[i]?.map (·.location) := by
    simp only [List.map_map]
    refine List.map_congr_left fun x hx => ?_
    obtain ⟨a, ha, hcall⟩ := h.called x hx
    simp only [Function.comp_apply, ha, Option.map_some]
    exact congrArg some (congrArg Prod.snd hcall)
  have hall : (List.range nodes.length).map (fun i => nodes[i]?.map (·.location)) =
      (nodes.map (·.location)).map some := by
    refine List.ext_getElem (by simp) fun i hi _ => ?_
    have hi : i < nodes.length := by simpa using hi
    simp [hi]
  have hperm := (List.perm_ext_iff_of_nodup hnodup List.nodup_range).mpr fun i =>
    (hmem i).trans List.mem_range.symm
  rw [← List.map_perm_map_iff (fun _ _ => Option.some.inj), hcalled, hnumbers, ← hall]
  exact hperm.map _

theorem of_mem (h : Numbered phase nodes order faults calls) {e : Exchange}
    (he : e ∈ calls.map Prod.snd) :
    ∃ i a, (i, e) ∈ calls ∧ nodes[i]? = some a ∧ e.call = (.phase phase, a.location) := by
  obtain ⟨⟨i, e⟩, hx, rfl⟩ := List.mem_map.mp he
  obtain ⟨a, ha, hcall⟩ := h.called _ hx
  exact ⟨i, a, hx, ha, hcall⟩

/-- The first fault in the order of the nodes stands for the phase. -/
theorem phaseLog (h : Numbered phase nodes (Client.callOrder named nodes.length) faults calls) :
    PhaseLog phase nodes ⟨nodes.map (·.location),
      nodes.zipIdx.findSome? fun (a, i) => (faults.lookup i).map (a.location, ·)⟩ (calls.map Prod.snd) := by
  refine ⟨fun e he => ?_, h.executors_perm.subperm, h.executors_perm.symm,
    fun hnone => ⟨h.executors_perm, fun e he => ?_⟩, fun l error hsome => ?_⟩
  · obtain ⟨_, _, _, _, hcall⟩ := h.of_mem he
    exact congrArg Prod.fst hcall
  · obtain ⟨i, a, hx, ha, _⟩ := h.of_mem he
    rcases hf : e.fault with _ | error
    · rfl
    -- a fault would have been found under the number of its node
    have hnone := List.findSome?_eq_none_iff.mp hnone (a, i) (List.mk_mem_zipIdx_iff_getElem?.mpr ha)
    have hlookup := List.lookup_eq_none_iff.mp (Option.map_eq_none_iff.mp hnone) (i, error)
      (h.mem_faults.mpr ⟨e, hx, hf⟩)
    simp at hlookup
  · obtain ⟨⟨a, i⟩, ha, hsome⟩ := List.exists_of_findSome?_eq_some hsome
    obtain ⟨_, hlookup, heq⟩ := Option.map_eq_some_iff.mp hsome
    cases heq
    obtain ⟨_, _, hsplit, _⟩ := List.lookup_eq_some_iff.mp hlookup
    obtain ⟨e, hx, hf⟩ := h.mem_faults.mp (hsplit ▸ List.mem_append_right _ List.mem_cons_self)
    obtain ⟨a', ha', hcall⟩ := h.called _ hx
    obtain rfl := Option.some.inj ((List.mk_mem_zipIdx_iff_getElem?.mp ha).symm.trans ha')
    exact ⟨e, List.mem_map_of_mem hx, hcall, hf⟩

end Numbered

section Calls

variable {κ : Type} (c : Client (World κ)) (phase : Phase) (nodes : List Assignment) (w : World κ)
  (log : List Exchange)

theorem inSequence_logged : ∃ new,
    c.logged.inSequence phase nodes (w.withLog log) =
      ((c.inSequence phase nodes w).1, (c.inSequence phase nodes w).2.withLog (log ++ new)) ∧
    Chain w.scheduler new (c.inSequence phase nodes w).2.scheduler ∧
    Cut (nodes.map fun a => (.phase phase, a.location))
      ((c.inSequence phase nodes w).1.refusal? phase) new ∧
    (c.inSequence phase nodes w).1.called = new.map (·.executor) := by
  induction nodes generalizing w log with
  | nil => exact ⟨[], by rw [List.append_nil]; rfl, .nil, .nil, rfl⟩
  | cons a nodes ih =>
    rcases hcall : c.perform phase a.location a.instruction w with ⟨answer, w'⟩
    let e : Exchange := ⟨.phase phase, a.location, faultOf answer, w.scheduler, w'.scheduler⟩
    have hlogged : c.logged.perform phase a.location a.instruction (w.withLog log) =
        (answer, w'.withLog (log ++ [e])) := note_withLog hcall (.phase phase) a.location log
    rw [Client.inSequence, Client.inSequence, hcall, hlogged]
    cases answer with
    | error error => exact ⟨[e], rfl, @Chain.cons e [] _ .nil, .refused (e := e) rfl _, rfl⟩
    | ok =>
      obtain ⟨new, hrun, hchain, hcut, hcalled⟩ := ih w' (log ++ [e])
      refine ⟨e :: new, ?_, @Chain.cons e new _ hchain, @Cut.answered _ _ _ e rfl hcut,
        congrArg (a.location :: ·) hcalled⟩
      simp only [hrun, List.append_assoc, List.singleton_append]

theorem callEach_logged (order : List Nat) : ∃ calls : List (Nat × Exchange),
    c.logged.callEach phase nodes order (w.withLog log) = ((c.callEach phase nodes order w).1,
      (c.callEach phase nodes order w).2.withLog (log ++ calls.map Prod.snd)) ∧
    Chain w.scheduler (calls.map Prod.snd) (c.callEach phase nodes order w).2.scheduler ∧
    Numbered phase nodes order (c.callEach phase nodes order w).1 calls := by
  induction order generalizing w log with
  | nil =>
    exact ⟨[], by rw [List.map_nil, List.append_nil]; rfl, .nil, rfl, rfl, List.forall_mem_nil _⟩
  | cons i order ih =>
    rcases ha : nodes[i]? with _ | a
    · -- nobody has this number
      obtain ⟨calls, hrun, hchain, hnumbered⟩ := ih w log
      have hi : ¬ i < nodes.length := Nat.not_lt.mpr (List.getElem?_eq_none_iff.mp ha)
      rw [Client.callEach, Client.callEach, ha]
      refine ⟨calls, hrun, hchain, hnumbered.faults_eq, ?_, hnumbered.called⟩
      rw [List.filter_cons_of_neg (by simpa using hi)]
      exact hnumbered.numbers
    · rcases hcall : c.perform phase a.location a.instruction w with ⟨answer, w'⟩
      let e : Exchange := ⟨.phase phase, a.location, faultOf answer, w.scheduler, w'.scheduler⟩
      have hlogged : c.logged.perform phase a.location a.instruction (w.withLog log) =
          (answer, w'.withLog (log ++ [e])) := note_withLog hcall (.phase phase) a.location log
      obtain ⟨calls, hrun, hchain, hnumbered⟩ := ih w' (log ++ [e])
      have hi : i < nodes.length := (List.getElem?_eq_some_iff.mp ha).1
      have hnumbers : ((i, e) :: calls).map Prod.fst = (i :: order).filter (· < nodes.length) := by
        rw [List.filter_cons_of_pos (by simpa using hi), ← hnumbered.numbers]
        rfl
      have hcalled : ∀ x ∈ (i, e) :: calls, ∃ a, nodes[x.1]? = some a ∧
          x.2.call = (.phase phase, a.location) :=
        List.forall_mem_cons.mpr ⟨⟨a, ha, rfl⟩, hnumbered.called⟩
      rw [Client.callEach, Client.callEach, ha]
      simp only [hcall, hlogged]
      cases answer with
      | error error =>
        refine ⟨(i, e) :: calls, ?_, @Chain.cons e _ _ hchain,
          congrArg ((i, error) :: ·) hnumbered.faults_eq, hnumbers, hcalled⟩
        simp only [hrun, List.map_cons, List.append_assoc, List.singleton_append]
      | ok =>
        refine ⟨(i, e) :: calls, ?_, @Chain.cons e _ _ hchain, hnumbered.faults_eq, hnumbers, hcalled⟩
        simp only [hrun, List.map_cons, List.append_assoc, List.singleton_append]

theorem inParallel_logged (order : List Nat) : ∃ new,
    c.logged.inParallel order phase nodes (w.withLog log) =
      ((c.inParallel order phase nodes w).1, (c.inParallel order phase nodes w).2.withLog (log ++ new)) ∧
    Chain w.scheduler new (c.inParallel order phase nodes w).2.scheduler ∧
    PhaseLog phase nodes (c.inParallel order phase nodes w).1 new := by
  obtain ⟨calls, hrun, hchain, hnumbered⟩ :=
    callEach_logged c phase nodes w log (Client.callOrder order nodes.length)
  exact ⟨calls.map Prod.snd, by simp only [Client.inParallel, hrun], hchain, hnumbered.phaseLog⟩

theorem PhaseLog.of_cut {r : PhaseResult} {new : List Exchange}
    (h : Cut (nodes.map fun a => (.phase phase, a.location)) (r.refusal? phase) new)
    (hcalled : r.called = new.map (·.executor)) : PhaseLog phase nodes r new := by
  have hexecutors : new.map (·.executor) <+: nodes.map (·.location) := by
    have hpre := h.isPrefix.map Prod.snd
    rwa [List.map_map, List.map_map] at hpre
  refine ⟨fun e he => ?_, hexecutors.sublist.subperm, .of_eq hcalled, fun hnone => ?_,
    fun l error hsome => ?_⟩
  · obtain ⟨a, _, hcall⟩ := List.mem_map.mp (h.isPrefix.subset (List.mem_map_of_mem he))
    exact (congrArg Prod.fst hcall).symm
  · obtain ⟨hcalls, hfine⟩ := h.whole (by rw [PhaseResult.refusal?, hnone]; rfl)
    have hall := congrArg (List.map Prod.snd) hcalls
    rw [List.map_map, List.map_map] at hall
    exact ⟨.of_eq hall, hfine⟩
  · obtain ⟨front, e, rfl, _, hlast⟩ := h.last (by rw [PhaseResult.refusal?, hsome]; rfl)
    exact ⟨e, List.mem_append_right _ (List.mem_singleton_self e), hlast⟩

theorem callPhase_logged (mode : DispatchMode) (order : List Nat) : ∃ new,
    c.logged.callPhase mode order phase nodes (w.withLog log) =
      ((c.callPhase mode order phase nodes w).1,
        (c.callPhase mode order phase nodes w).2.withLog (log ++ new)) ∧
    Chain w.scheduler new (c.callPhase mode order phase nodes w).2.scheduler ∧
    PhaseLog phase nodes (c.callPhase mode order phase nodes w).1 new ∧
    (mode = .sequential → Cut (nodes.map fun a => (.phase phase, a.location))
      ((c.callPhase mode order phase nodes w).1.refusal? phase) new) := by
  cases mode with
  | sequential =>
    obtain ⟨new, hrun, hchain, hcut, hcalled⟩ := inSequence_logged c phase nodes w log
    exact ⟨new, hrun, hchain, .of_cut phase nodes hcut hcalled, fun _ => hcut⟩
  | parallel =>
    obtain ⟨new, hrun, hchain, hphase⟩ := inParallel_logged c phase nodes w log order
    exact ⟨new, hrun, hchain, hphase, nofun⟩

end Calls

/-- Calls in phases. -/
structure Phased (phases : List Phase) (nodes : List Assignment) (log : List Exchange) : Prop where
  called : ∀ e ∈ log, ∃ p ∈ phases, ∃ a ∈ nodes, e.call = (.phase p, a.location)
  once : (log.map Exchange.call).Nodup
  /-- When a call is made, all calls of the phases before have been answered well. -/
  barrier : ∀ front e back, log = front ++ e :: back → ∀ p q, e.errand = .phase q →
    [p, q].Sublist phases → ∀ a ∈ nodes, ∃ d ∈ front, d.call = (.phase p, a.location) ∧ d.fault = none
  /-- When a call has failed, no other phase begins. -/
  halt : ∀ front e back, log = front ++ e :: back →
    ∀ d ∈ front, d.fault ≠ none → e.errand = d.errand

/-- The calls of a dispatch, and what comes of them. -/
structure Dispatched (phases : List Phase) (nodes : List Assignment) (contacted : List Location)
    (r : Except DispatchFailure Unit) (log : List Exchange) : Prop extends Phased phases nodes log where
  whole : r = .ok () → (∀ e ∈ log, e.fault = none) ∧
    ∀ p ∈ phases, ∀ a ∈ nodes, (.phase p, a.location) ∈ log.map Exchange.call
  failure : ∀ f, r = .error f →
    ∃ e ∈ log, e.call = (.phase f.phase, f.location) ∧ e.fault = some f.error
  contacted : ∀ f, r = .error f →
    f.contacted.Perm (contacted ++ asked (.phase .sendInstruction) log)

section Phases

variable {phase : Phase} {phases : List Phase} {nodes : List Assignment} {r : PhaseResult}
  {contacted : List Location} {block rest log : List Exchange} {x : Except DispatchFailure Unit}

/-- A place in two lists, one behind the other, is in one of them. -/
theorem split_append {α : Type} {xs ys front back : List α} {z : α}
    (h : xs ++ ys = front ++ z :: back) :
    (∃ rest, xs = front ++ z :: rest) ∨ ∃ more, front = xs ++ more ∧ ys = more ++ z :: back := by
  rcases List.append_eq_append_iff.mp h with ⟨more, hfront, hys⟩ | ⟨more, hxs, hback⟩
  · exact .inr ⟨more, hfront, hys⟩
  · cases more with
    | nil => exact .inr ⟨[], by simpa using hxs.symm, by simpa using hback.symm⟩
    | cons z' more =>
      cases hback
      exact .inl ⟨more, hxs⟩

theorem Exchange.asked_nodup {errand : Errand} (h : (log.map Exchange.call).Nodup) :
    (asked errand log).Nodup := by
  have hcalls : (log.filter (·.errand = errand)).map Exchange.call =
      (asked errand log).map (errand, ·) := by
    rw [asked, List.map_map]
    refine List.map_congr_left fun e he => ?_
    exact Prod.ext (of_decide_eq_true (List.mem_filter.mp he).2) rfl
  exact List.Nodup.of_map _ (hcalls ▸ (List.filter_sublist.map _).nodup h)

namespace PhaseLog

theorem calls (h : PhaseLog phase nodes r block) :
    block.map Exchange.call = (block.map (·.executor)).map (.phase phase, ·) := by
  rw [List.map_map]
  exact List.map_congr_left fun e he => Prod.ext (h.errand e he) rfl

theorem once (h : PhaseLog phase nodes r block) (hnodes : (nodes.map (·.location)).Nodup) :
    (block.map Exchange.call).Nodup := by
  obtain ⟨executors, hperm, hsub⟩ := h.within
  rw [h.calls]
  exact (hperm.nodup_iff.mp (hsub.nodup hnodes)).map fun _ _ heq => congrArg Prod.snd heq

theorem called_of_mem (h : PhaseLog phase nodes r block) {e : Exchange} (he : e ∈ block) :
    ∃ a ∈ nodes, e.call = (.phase phase, a.location) := by
  obtain ⟨a, ha, hl⟩ := List.mem_map.mp (h.within.subset (List.mem_map_of_mem he))
  exact ⟨a, ha, Prod.ext (h.errand e he) hl.symm⟩

theorem mem_of_whole (h : PhaseLog phase nodes r block) (hnone : r.failure = none) {a : Assignment}
    (ha : a ∈ nodes) : ∃ e ∈ block, e.call = (.phase phase, a.location) ∧ e.fault = none := by
  obtain ⟨hall, hfine⟩ := h.whole hnone
  obtain ⟨e, he, hl⟩ := List.mem_map.mp (hall.mem_iff.mpr (List.mem_map_of_mem ha))
  exact ⟨e, he, Prod.ext (h.errand e he) hl, hfine e he⟩

/-- Who has been contacted after a phase. -/
theorem contacted_perm (h : PhaseLog phase nodes r block) (contacted : List Location) :
    (if phase = .sendInstruction then contacted ++ r.called else contacted).Perm
      (contacted ++ asked (.phase .sendInstruction) block) := by
  split
  · rename_i heq
    rw [Exchange.asked_of_forall (heq ▸ h.errand)]
    exact h.called.append_left _
  · rename_i hne
    rw [Exchange.asked_of_forall_ne fun e he => by rw [h.errand e he]; simpa using hne, List.append_nil]

/-- The calls of one phase only. -/
theorem phased (h : PhaseLog phase nodes r block) (hnodes : (nodes.map (·.location)).Nodup)
    (hphase : phase ∉ phases) : Phased (phase :: phases) nodes block where
  called e he := by
    obtain ⟨a, ha, hcall⟩ := h.called_of_mem he
    exact ⟨phase, List.mem_cons_self, a, ha, hcall⟩
  once := h.once hnodes
  barrier front e back hlog p q hq hpq := by
    have he : e ∈ block := hlog ▸ List.mem_append_right _ List.mem_cons_self
    obtain rfl : phase = q := Errand.phase.inj ((h.errand e he).symm.trans hq)
    rcases List.sublist_cons_iff.mp hpq with hsub | ⟨_, heq, hsub⟩
    · exact absurd (hsub.subset (List.mem_cons_of_mem _ List.mem_cons_self)) hphase
    · cases heq
      exact absurd (hsub.subset List.mem_cons_self) hphase
  halt front e back hlog d hd _ := by
    have he : e ∈ block := hlog ▸ List.mem_append_right _ List.mem_cons_self
    exact (h.errand e he).trans (h.errand d (hlog ▸ List.mem_append_left _ hd)).symm

end PhaseLog

namespace Dispatched

theorem nil : Dispatched [] nodes contacted (.ok ()) [] where
  called := List.forall_mem_nil _
  once := List.nodup_nil
  barrier front e back h := by simp at h
  halt front e back h := by simp at h
  whole _ := ⟨List.forall_mem_nil _, List.forall_mem_nil _⟩
  failure := nofun
  contacted := nofun

/-- A phase in which a call fails is the last. -/
theorem stop (h : PhaseLog phase nodes r block) (hnodes : (nodes.map (·.location)).Nodup)
    (hphase : phase ∉ phases) {l : Location} {error : RpcError} (hfailure : r.failure = some (l, error)) :
    Dispatched (phase :: phases) nodes contacted (.error { phase, location := l, error, contacted :=
      if phase = .sendInstruction then contacted ++ r.called else contacted }) block where
  toPhased := h.phased hnodes hphase
  whole := nofun
  failure f hf := by
    cases hf
    exact h.failure l error hfailure
  contacted f hf := by
    cases hf
    exact h.contacted_perm contacted

/-- After a phase in which all calls are answered well comes the next. -/
theorem next (h : PhaseLog phase nodes r block) (hnodes : (nodes.map (·.location)).Nodup)
    (hphase : phase ∉ phases) (hnone : r.failure = none)
    (hrest : Dispatched phases nodes
      (if phase = .sendInstruction then contacted ++ r.called else contacted) x rest) :
    Dispatched (phase :: phases) nodes contacted x (block ++ rest) where
  called e he := by
    rcases List.mem_append.mp he with he | he
    · exact (h.phased hnodes hphase).called e he
    · obtain ⟨p, hp, hcall⟩ := hrest.called e he
      exact ⟨p, List.mem_cons_of_mem _ hp, hcall⟩
  once := by
    rw [List.map_append]
    refine List.nodup_append.mpr ⟨h.once hnodes, hrest.once, ?_⟩
    rintro _ hd _ he rfl
    obtain ⟨d, hd, hdcall⟩ := List.mem_map.mp hd
    obtain ⟨e, he, hecall⟩ := List.mem_map.mp he
    obtain ⟨p, hp, _, _, hcall⟩ := hrest.called e he
    have hrequest := congrArg Prod.fst ((hdcall.trans hecall.symm).trans hcall)
    exact hphase (Errand.phase.inj ((h.errand d hd).symm.trans hrequest) ▸ hp)
  barrier front e back hlog p q hq hpq a ha := by
    rcases split_append hlog with ⟨more, hblock⟩ | ⟨more, rfl, hmore⟩
    · exact (h.phased hnodes hphase).barrier front e more hblock p q hq hpq a ha
    -- a call of a later phase: the phase in front of it is a later one too, or the one in hand
    rcases List.sublist_cons_iff.mp hpq with hsub | ⟨_, heq, hsub⟩
    · obtain ⟨d, hd, hcall⟩ := hrest.barrier more e back hmore p q hq hsub a ha
      exact ⟨d, List.mem_append_right _ hd, hcall⟩
    · cases heq
      obtain ⟨d, hd, hcall⟩ := h.mem_of_whole hnone ha
      exact ⟨d, List.mem_append_left _ hd, hcall⟩
  halt front e back hlog d hd hfault := by
    rcases split_append hlog with ⟨more, hblock⟩ | ⟨more, rfl, hmore⟩
    · exact (h.phased hnodes hphase).halt front e more hblock d hd hfault
    rcases List.mem_append.mp hd with hd | hd
    · exact absurd ((h.whole hnone).2 d hd) hfault
    · exact hrest.halt more e back hmore d hd hfault
  whole hx := by
    obtain ⟨hfine, hall⟩ := hrest.whole hx
    refine ⟨fun e he => (List.mem_append.mp he).elim ((h.whole hnone).2 e) (hfine e),
      fun p hp a ha => ?_⟩
    rw [List.map_append]
    rcases List.mem_cons.mp hp with rfl | hp
    · obtain ⟨e, he, hcall, _⟩ := h.mem_of_whole hnone ha
      exact List.mem_append_left _ (List.mem_map.mpr ⟨e, he, hcall⟩)
    · exact List.mem_append_right _ (hall p hp a ha)
  failure f hf := by
    obtain ⟨e, he, hcall⟩ := hrest.failure f hf
    exact ⟨e, List.mem_append_right _ he, hcall⟩
  contacted f hf := by
    rw [Exchange.asked_append, ← List.append_assoc]
    exact (hrest.contacted f hf).trans ((h.contacted_perm contacted).append_right _)

theorem ok_iff (h : Dispatched phases nodes contacted x log) :
    x = .ok () ↔ ∀ e ∈ log, e.fault = none := by
  refine ⟨fun hx => (h.whole hx).1, fun hfine => ?_⟩
  rcases x with f | _
  · obtain ⟨e, he, _, hfault⟩ := h.failure f rfl
    cases hfault.symm.trans (hfine e he)
  · rfl

end Dispatched

end Phases

/-- The calls of a graph, phase by phase and in each phase along the graph. -/
def callPlan (phases : List Phase) (nodes : List Assignment) : List (Errand × Location) :=
  phases.flatMap fun p => nodes.map fun a => (.phase p, a.location)

section Dispatch

variable {κ : Type} (c : Client (World κ)) (mode : DispatchMode) (order : Phase → List Nat)
  (nodes : List Assignment)

theorem dispatchPhases_logged (hnodes : (nodes.map (·.location)).Nodup) {phases : List Phase}
    (hphases : phases.Nodup) (contacted : List Location) (w : World κ) (log : List Exchange) : ∃ new,
    c.logged.dispatchPhases mode order nodes contacted phases (w.withLog log) =
      ((c.dispatchPhases mode order nodes contacted phases w).1,
        (c.dispatchPhases mode order nodes contacted phases w).2.withLog (log ++ new)) ∧
    Chain w.scheduler new (c.dispatchPhases mode order nodes contacted phases w).2.scheduler ∧
    Dispatched phases nodes contacted (c.dispatchPhases mode order nodes contacted phases w).1 new ∧
    (mode = .sequential → Cut (callPlan phases nodes)
      (refusalOf (c.dispatchPhases mode order nodes contacted phases w).1) new) := by
  induction phases generalizing contacted w log with
  | nil => exact ⟨[], by rw [List.append_nil]; rfl, .nil, .nil, fun _ => .nil⟩
  | cons phase phases ih =>
    obtain ⟨hphase, hphases⟩ := List.nodup_cons.mp hphases
    obtain ⟨block, hrun, hchain, hblock, hcut⟩ :=
      callPhase_logged c phase nodes w log mode (order phase)
    rcases hcall : c.callPhase mode (order phase) phase nodes w with ⟨r, w'⟩
    rw [hcall] at hrun hchain hblock hcut
    rw [Client.dispatchPhases, Client.dispatchPhases, hcall, hrun]
    rcases hfailure : r.failure with _ | ⟨l, error⟩
    · obtain ⟨rest, hrun, hrest⟩ := ih hphases
        (if phase = .sendInstruction then contacted ++ r.called else contacted) w' (log ++ block)
      simp only [hfailure]
      refine ⟨block ++ rest, ?_, hchain.append hrest.1, .next hblock hnodes hphase hfailure hrest.2.1,
        fun hmode => (hcut hmode).append ?_ (hrest.2.2 hmode)⟩
      · rw [hrun, List.append_assoc]
      · rw [PhaseResult.refusal?, hfailure]
        rfl
    · simp only [hfailure]
      refine ⟨block, rfl, hchain, .stop hblock hnodes hphase hfailure, fun hmode => ?_⟩
      have hstop := hcut hmode
      rw [PhaseResult.refusal?, hfailure] at hstop
      exact hstop.stop (Option.some_ne_none _) (callPlan phases nodes)

theorem dispatch_logged (hnodes : (nodes.map (·.location)).Nodup) (w : World κ) : ∃ log,
    c.logged.dispatch mode order nodes (w.withLog []) =
      ((c.dispatch mode order nodes w).1, (c.dispatch mode order nodes w).2.withLog log) ∧
    Chain w.scheduler log (c.dispatch mode order nodes w).2.scheduler ∧
    Dispatched Phase.all nodes [] (c.dispatch mode order nodes w).1 log ∧
    (mode = .sequential →
      Cut (callPlan Phase.all nodes) (refusalOf (c.dispatch mode order nodes w).1) log) :=
  dispatchPhases_logged c mode order nodes hnodes (by decide) [] w []

end Dispatch

end QueryCluster
