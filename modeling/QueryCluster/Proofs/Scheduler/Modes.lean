import QueryCluster.Proofs.Scheduler.Barrier

/-!
# One outcome in both modes

In parallel a phase makes calls that a phase in sequence never gets to, and in any order. Where an answer
hangs on nothing but the phase and the executor, both find the failure that is first in the order of the
graph, in the first phase that has one.
-/
namespace QueryCluster

open World (faultOf)

/-- What was called before has no bearing on an answer. -/
def Client.Answers {ω : Type} (c : Client ω) (answer : Phase → Location → Except RpcError Unit) : Prop :=
  ∀ phase l i w, (c.perform phase l i w).1 = answer phase l

/-- The failure that counts in a phase. -/
def firstFault (answer : Phase → Location → Except RpcError Unit) (phase : Phase)
    (nodes : List Assignment) : Option (Location × RpcError) :=
  nodes.findSome? fun a => (faultOf (answer phase a.location)).map (a.location, ·)

/-- The refusal that a dispatch reports. -/
def firstRefusal (answer : Phase → Location → Except RpcError Unit) (phases : List Phase)
    (nodes : List Assignment) : Option Refusal :=
  phases.findSome? fun phase =>
    (firstFault answer phase nodes).map fun (l, e) => (.phase phase, l, e)

theorem lookup_faults (fault : Nat → Option RpcError) {order : List Nat} {i : Nat} (hi : i ∈ order) :
    (order.filterMap fun i => (fault i).map (i, ·)).lookup i = fault i := by
  induction order with
  | nil => cases hi
  | cons j order ih =>
    by_cases hij : i = j
    · subst hij
      rcases hfault : fault i with _ | e
      · rw [List.filterMap_cons_none (by rw [hfault]; rfl), List.lookup_eq_none_iff]
        rintro ⟨k, e⟩ hk
        obtain ⟨_, _, hk⟩ := List.mem_filterMap.mp hk
        obtain ⟨_, hk, heq⟩ := Option.map_eq_some_iff.mp hk
        cases heq
        exact bne_iff_ne.mpr fun h => by cases h; cases hfault.symm.trans hk
      · rw [List.filterMap_cons_some (by rw [hfault]; rfl), List.lookup_cons_self]
    · have hrest := ih ((List.mem_cons.mp hi).resolve_left hij)
      rcases hfault : fault j with _ | e
      · rwa [List.filterMap_cons_none (by rw [hfault]; rfl)]
      · rw [List.filterMap_cons_some (by rw [hfault]; rfl), List.lookup_cons, beq_false_of_ne hij]
        exact hrest

namespace Client

theorem eraseDups_of_nodup {named : List Nat} (h : named.Nodup) : named.eraseDups = named := by
  induction named with
  | nil => rfl
  | cons k ks ih =>
    obtain ⟨hk, hks⟩ := List.nodup_cons.mp h
    have hothers : ks.filter (fun j => !j == k) = ks :=
      List.filter_eq_self.mpr fun j hj => by simpa using ne_of_mem_of_not_mem hj hk
    rw [List.eraseDups_cons, hothers, ih hks]

/-- Every order in which all nodes are called can be asked for. -/
theorem callOrder_of_perm {order : List Nat} {n : Nat} (h : order.Perm (List.range n)) :
    callOrder order n = order := by
  have hmem : ∀ i ∈ order, i < n := fun i hi => List.mem_range.mp (h.mem_iff.mp hi)
  have hnodup : order.Nodup := h.nodup_iff.mpr List.nodup_range
  have hfirst : order.eraseDups.filter (· < n) = order := by
    rw [eraseDups_of_nodup hnodup, List.filter_eq_self.mpr fun i hi => decide_eq_true (hmem i hi)]
  have hothers : (List.range n).filter (· ∉ order) = [] :=
    List.filter_eq_nil_iff.mpr fun i hi => by simpa using h.mem_iff.mpr hi
  rw [callOrder, hfirst, hothers, List.append_nil]

variable {ω : Type} {c : Client ω} {answer : Phase → Location → Except RpcError Unit}

theorem Answers.inSequence_failure (hc : c.Answers answer) (phase : Phase) (nodes : List Assignment) (w : ω) :
    (c.inSequence phase nodes w).1.failure = firstFault answer phase nodes := by
  induction nodes generalizing w with
  | nil => rfl
  | cons a nodes ih =>
    have hanswer := hc phase a.location a.instruction w
    rw [inSequence, firstFault, List.findSome?_cons, ← hanswer]
    rcases c.perform phase a.location a.instruction w with ⟨_ | _, w'⟩
    · rfl
    · exact ih w'

theorem Answers.callEach_faults (hc : c.Answers answer) (phase : Phase) (nodes : List Assignment)
    (order : List Nat) (w : ω) : (c.callEach phase nodes order w).1 = order.filterMap fun i =>
      (nodes[i]?.bind fun a => faultOf (answer phase a.location)).map (i, ·) := by
  induction order generalizing w with
  | nil => rfl
  | cons i order ih =>
    rw [callEach, List.filterMap_cons]
    rcases nodes[i]? with _ | a
    · exact ih w
    · rw [Option.bind_some, ← hc phase a.location a.instruction w]
      rcases hcall : c.perform phase a.location a.instruction w with ⟨_ | _, w'⟩
      · simp only [hcall]
        exact congrArg _ (ih w')
      · simp only [hcall]
        exact ih w'

theorem Answers.inParallel_failure (hc : c.Answers answer) (order : List Nat) (phase : Phase)
    (nodes : List Assignment) (w : ω) :
    (c.inParallel order phase nodes w).1.failure = firstFault answer phase nodes := by
  let fault (a : Assignment) := (faultOf (answer phase a.location)).map (a.location, ·)
  have hfound : ∀ x ∈ nodes.zipIdx,
      (((c.callEach phase nodes (callOrder order nodes.length) w).1.lookup x.2).map (x.1.location, ·)) =
        fault x.1 := by
    rintro ⟨a, i⟩ hx
    have ha : nodes[i]? = some a := List.mk_mem_zipIdx_iff_getElem?.mp hx
    have hi := ((callOrder_spec order nodes.length).2 i).mpr (List.getElem?_eq_some_iff.mp ha).1
    rw [hc.callEach_faults, lookup_faults _ hi, ha]
    rfl
  calc (c.inParallel order phase nodes w).1.failure
      = (nodes.zipIdx.filterMap fun x => fault x.1).head? := by
        rw [← List.filterMap_congr hfound, List.head?_filterMap]
        rfl
    _ = (nodes.zipIdx.map Prod.fst).findSome? fault := by
        rw [List.findSome?_map, List.head?_filterMap]
        rfl
    _ = nodes.findSome? fault := by rw [List.zipIdx_map_fst]

theorem Answers.callPhase_failure (hc : c.Answers answer) (mode : DispatchMode) (order : List Nat)
    (phase : Phase) (nodes : List Assignment) (w : ω) :
    (c.callPhase mode order phase nodes w).1.failure = firstFault answer phase nodes := by
  cases mode with
  | sequential => exact hc.inSequence_failure phase nodes w
  | parallel => exact hc.inParallel_failure order phase nodes w

theorem Answers.dispatchPhases_refusal (hc : c.Answers answer) (mode : DispatchMode)
    (order : Phase → List Nat) (nodes : List Assignment) (contacted : List Location) (phases : List Phase)
    (w : ω) : refusalOf (c.dispatchPhases mode order nodes contacted phases w).1 =
      firstRefusal answer phases nodes := by
  induction phases generalizing contacted w with
  | nil => rfl
  | cons phase phases ih =>
    have hphase := hc.callPhase_failure mode (order phase) phase nodes w
    rw [dispatchPhases, firstRefusal, List.findSome?_cons, ← hphase]
    rcases c.callPhase mode (order phase) phase nodes w with ⟨⟨_, _ | _⟩, w'⟩
    · exact ih _ w'
    · rfl

/-- Whether a dispatch goes well, and if not in which phase, at which executor and with which error it
fails, is the same in sequence and in parallel, in whatever order the calls of a phase are made. -/
theorem Answers.modes_agree (hc : c.Answers answer) (nodes : List Assignment) (order order' : Phase → List Nat)
    (w w' : ω) :
    ((c.dispatch .sequential order nodes w).1 = .ok () ∧ (c.dispatch .parallel order' nodes w').1 = .ok ()) ∨
    ∃ f g, (c.dispatch .sequential order nodes w).1 = .error f ∧
      (c.dispatch .parallel order' nodes w').1 = .error g ∧
      f.phase = g.phase ∧ f.location = g.location ∧ f.error = g.error := by
  have hsame := (hc.dispatchPhases_refusal .sequential order nodes [] Phase.all w).trans
    (hc.dispatchPhases_refusal .parallel order' nodes [] Phase.all w').symm
  rw [dispatch, dispatch]
  generalize (c.dispatchPhases .sequential order nodes [] Phase.all w).1 = inSequence,
    (c.dispatchPhases .parallel order' nodes [] Phase.all w').1 = inParallel at hsame
  rcases inSequence with ⟨_, _, _, _⟩ | _ <;> rcases inParallel with ⟨_, _, _, _⟩ | _ <;> cases hsame
  · exact .inr ⟨_, _, rfl, rfl, rfl, rfl, rfl⟩
  · exact .inl ⟨rfl, rfl⟩

end Client

/-- Two of three executors cannot set up their writers, and none could run. -/
def halting : Phase → Location → Except RpcError Unit
  | .setupWriters, l => if l.name = "b" then .error .closed else if l.name = "c" then .error .io else .ok ()
  | .run, _ => .error .codec
  | _, _ => .ok ()

def haltingClient : Client Unit where
  perform phase l _ w := (halting phase l, w)
  abort _ _ w := (.ok (), w)
  status _ w := (.error .closed, w)
  results _ _ w := (.error .closed, w)

def trio : List Assignment := ["a", "b", "c"].map fun name => ⟨⟨name, "host", 1⟩, default⟩

theorem modes_agree_halting : haltingClient.Answers halting ∧
    ∃ f g, (haltingClient.dispatch .sequential (fun _ => []) trio ()).1 = .error f ∧
      (haltingClient.dispatch .parallel (fun _ => [2, 1, 0]) trio ()).1 = .error g ∧
      f.phase = g.phase ∧ f.location = g.location ∧ f.error = g.error := by
  have hanswers : haltingClient.Answers halting := fun _ _ _ _ => rfl
  have hfails : (haltingClient.dispatch .sequential (fun _ => []) trio ()).1 ≠ .ok () := nofun
  exact ⟨hanswers, (hanswers.modes_agree trio (fun _ => []) (fun _ => [2, 1, 0]) () ()).resolve_left
    fun h => hfails h.1⟩

end QueryCluster
