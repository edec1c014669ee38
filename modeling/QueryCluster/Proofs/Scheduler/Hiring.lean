import QueryCluster.Proofs.Executor.Workload
import QueryCluster.Proofs.Scheduler.Lists
import QueryCluster.Scheduler.Remote

/-!
# Who is brought to work

A dispatch calls each of its executors at most once in a phase, so what one call keeps is kept by all of them.
Over a network where every call comes to its executor a dispatch brings none to work but those it has contacted;
aborting a task leaves none of those it calls at work for it; and an executor that refuses an instruction for
its state was at work before the dispatch began.
-/
namespace QueryCluster

/-! ## A rule for phases -/

namespace Client

variable {ω : Type} {c : Client ω} {J : List Location → ω → Prop} {Q : Location → RpcError → Prop}
  {phase : Phase} {nodes : List Assignment} {called : List Location} {w : ω}

/-- A call to an executor that has not been called yet keeps what is said of those that have, and a fault has
its reason. -/
def Carries (c : Client ω) (phase : Phase) (J : List Location → ω → Prop)
    (Q : Location → RpcError → Prop) (a : Assignment) : Prop :=
  ∀ called w, a.location ∉ called → J called w →
    J (a.location :: called) (c.perform phase a.location a.instruction w).2 ∧
    ∀ e, (c.perform phase a.location a.instruction w).1 = .error e → Q a.location e

section Phases

variable (hmono : ∀ called more w, called ⊆ more → J called w → J more w)
  (hcarries : ∀ a ∈ nodes, c.Carries phase J Q a) (honce : (nodes.map (·.location)).Nodup)

include hmono hcarries honce

theorem inSequence_carries (hfresh : ∀ a ∈ nodes, a.location ∉ called) (h : J called w) :
    J ((c.inSequence phase nodes w).1.called ++ called) (c.inSequence phase nodes w).2 ∧
    (c.inSequence phase nodes w).1.called ⊆ nodes.map (·.location) ∧
    ∀ l e, (c.inSequence phase nodes w).1.failure = some (l, e) → Q l e := by
  induction nodes generalizing called w with
  | nil => exact ⟨h, List.nil_subset _, nofun⟩
  | cons a as ih =>
    obtain ⟨ha, has⟩ := List.forall_mem_cons.mp hcarries
    obtain ⟨hnot, honce⟩ := List.nodup_cons.mp honce
    obtain ⟨hnext, hfault⟩ := ha called w (hfresh a List.mem_cons_self) h
    rw [inSequence]
    rcases hcall : c.perform phase a.location a.instruction w with ⟨e | _, w'⟩ <;> rw [hcall] at hnext hfault
    · refine ⟨hnext, by simp, fun l e' hfailure => ?_⟩
      cases hfailure
      exact hfault e rfl
    · have hlater : ∀ b ∈ as, b.location ∉ a.location :: called := fun b hb hmem => by
        rcases List.mem_cons.mp hmem with heq | hmem
        · exact hnot (List.mem_map.mpr ⟨b, hb, heq⟩)
        · exact hfresh b (List.mem_cons_of_mem _ hb) hmem
      obtain ⟨hrest, hcalled, hfailure⟩ := ih has honce hlater hnext
      refine ⟨hmono _ _ _ ?_ hrest, ?_, hfailure⟩
      · exact List.perm_middle.subset
      · exact List.cons_subset.mpr ⟨List.mem_cons_self, List.subset_cons_of_subset _ hcalled⟩

theorem callEach_carries {order : List Nat} (horder : order.Nodup)
    (hfresh : ∀ i ∈ order, ∀ a, nodes[i]? = some a → a.location ∉ called) (h : J called w) :
    J (nodes.map (·.location) ++ called) (c.callEach phase nodes order w).2 ∧
    ∀ i e, (i, e) ∈ (c.callEach phase nodes order w).1 → ∃ a, nodes[i]? = some a ∧ Q a.location e := by
  induction order generalizing called w with
  | nil => exact ⟨hmono _ _ _ (List.subset_append_right ..) h, nofun⟩
  | cons i order ih =>
    obtain ⟨hi, horder⟩ := List.nodup_cons.mp horder
    obtain ⟨hfirst, hlater⟩ := List.forall_mem_cons.mp hfresh
    rw [callEach]
    cases ha : nodes[i]? with
    | none => exact ih horder hlater h
    | some a =>
      obtain ⟨hnext, hfault⟩ := hcarries a (List.mem_of_getElem? ha) called w (hfirst a ha) h
      have hothers : ∀ j ∈ order, ∀ b, nodes[j]? = some b → b.location ∉ a.location :: called := by
        intro j hj b hb hmem
        rcases List.mem_cons.mp hmem with heq | hmem
        · exact hi (index_eq_of_map honce hb ha heq ▸ hj)
        · exact hlater j hj b hb hmem
      have hsub : nodes.map (·.location) ++ a.location :: called ⊆ nodes.map (·.location) ++ called := by
        refine List.append_subset.mpr ⟨List.subset_append_left .., List.cons_subset.mpr ⟨?_, ?_⟩⟩
        · exact List.mem_append_left _ (List.mem_map_of_mem (List.mem_of_getElem? ha))
        · exact List.subset_append_right ..
      rcases hcall : c.perform phase a.location a.instruction w with ⟨e | _, w'⟩ <;>
        rw [hcall] at hnext hfault <;> simp only [hcall]
      · obtain ⟨hrest, hfaults⟩ := ih horder hothers hnext
        refine ⟨hmono _ _ _ hsub hrest, fun j e' hmem => ?_⟩
        rcases List.mem_cons.mp hmem with heq | hmem
        · cases heq
          exact ⟨a, ha, hfault e rfl⟩
        · exact hfaults j e' hmem
      · obtain ⟨hrest, hfaults⟩ := ih horder hothers hnext
        exact ⟨hmono _ _ _ hsub hrest, hfaults⟩

theorem callPhase_carries (mode : DispatchMode) (order : List Nat) (h : J [] w) :
    J (c.callPhase mode order phase nodes w).1.called (c.callPhase mode order phase nodes w).2 ∧
    (c.callPhase mode order phase nodes w).1.called ⊆ nodes.map (·.location) ∧
    ∀ l e, (c.callPhase mode order phase nodes w).1.failure = some (l, e) → Q l e := by
  cases mode with
  | sequential =>
    have hcalls := inSequence_carries hmono hcarries honce (fun _ _ => List.not_mem_nil) h
    rwa [List.append_nil] at hcalls
  | parallel =>
    obtain ⟨hall, hfaults⟩ := callEach_carries hmono hcarries honce
      (callOrder_spec order nodes.length).1 (fun _ _ _ _ => List.not_mem_nil) h
    rw [List.append_nil] at hall
    refine ⟨hall, List.Subset.refl _, fun l e hfailure => ?_⟩
    -- the fault that counts was recorded under the number of its node
    obtain ⟨⟨a, i⟩, ha, hsome⟩ := List.exists_of_findSome?_eq_some hfailure
    obtain ⟨_, hlookup, heq⟩ := Option.map_eq_some_iff.mp hsome
    cases heq
    obtain ⟨_, _, hsplit, _⟩ := List.lookup_eq_some_iff.mp hlookup
    obtain ⟨b, hb, hreason⟩ := hfaults i e (hsplit ▸ List.mem_append_right _ List.mem_cons_self)
    obtain rfl := Option.some.inj ((List.mk_mem_zipIdx_iff_getElem?.mp ha).symm.trans hb)
    exact hreason

end Phases

variable (hlater : ∀ phase ≠ Phase.sendInstruction, ∀ a ∈ nodes, ∀ called w, J called w →
    J called (c.perform phase a.location a.instruction w).2)
  (honce : (nodes.map (·.location)).Nodup)

include hlater honce

theorem dispatchPhases_carries (mode : DispatchMode) (order : Phase → List Nat) {phases : List Phase}
    (hphases : Phase.sendInstruction ∉ phases) (h : J called w) :
    J called (c.dispatchPhases mode order nodes called phases w).2 ∧
    ∀ f, (c.dispatchPhases mode order nodes called phases w).1 = .error f →
      f.contacted = called ∧ f.phase ≠ .sendInstruction := by
  induction phases generalizing w with
  | nil => exact ⟨h, nofun⟩
  | cons phase phases ih =>
    have hphase : phase ≠ .sendInstruction := fun heq => hphases (heq ▸ List.mem_cons_self)
    have hkeeps : ∀ a ∈ nodes, c.Carries phase (fun _ => J called) (fun _ _ => True) a :=
      fun a ha _ w _ h => ⟨hlater phase hphase a ha called w h, fun _ _ => trivial⟩
    have hcalls := callPhase_carries (fun _ _ _ _ h => h) hkeeps honce mode (order phase) h
    rw [dispatchPhases]
    rcases hcall : c.callPhase mode (order phase) phase nodes w with ⟨⟨reached, _ | ⟨l, e⟩⟩, w'⟩ <;>
      rw [hcall] at hcalls <;> simp only [if_neg hphase]
    · exact ih (fun hmem => hphases (List.mem_cons_of_mem _ hmem)) hcalls.1
    · refine ⟨hcalls.1, fun f hf => ?_⟩
      cases hf
      exact ⟨rfl, hphase⟩

/-- What is said at the end is said of those that were sent an instruction. -/
theorem dispatch_carries (hmono : ∀ called more w, called ⊆ more → J called w → J more w)
    (hfirst : ∀ a ∈ nodes, c.Carries .sendInstruction J Q a) (mode : DispatchMode)
    (order : Phase → List Nat) (h : J [] w) :
    ((c.dispatch mode order nodes w).1 = .ok () →
      J (nodes.map (·.location)) (c.dispatch mode order nodes w).2) ∧
    ∀ f, (c.dispatch mode order nodes w).1 = .error f → J f.contacted (c.dispatch mode order nodes w).2 ∧
      f.contacted ⊆ nodes.map (·.location) ∧ (f.phase = .sendInstruction → Q f.location f.error) := by
  have hcalls := callPhase_carries hmono hfirst honce mode (order .sendInstruction) h
  rw [dispatch, Phase.all, dispatchPhases]
  rcases hcall : c.callPhase mode (order .sendInstruction) .sendInstruction nodes w with
    ⟨⟨reached, _ | ⟨l, e⟩⟩, w'⟩ <;> rw [hcall] at hcalls <;>
    obtain ⟨hreached, hsub, hreason⟩ := hcalls <;> simp only [if_pos, List.nil_append]
  · have hphases : Phase.sendInstruction ∉ [Phase.setupWriters, .setupReaders, .run] := by decide
    obtain ⟨hend, hlate⟩ := dispatchPhases_carries hlater honce mode order hphases hreached
    refine ⟨fun _ => hmono _ _ _ hsub hend, fun f hf => ?_⟩
    obtain ⟨hcontacted, hphase⟩ := hlate f hf
    exact ⟨hcontacted ▸ hend, hcontacted ▸ hsub, fun heq => absurd heq hphase⟩
  · refine ⟨nofun, fun f hf => ?_⟩
    cases hf
    exact ⟨hreached, hsub, fun _ => hreason l e rfl⟩

end Client

/-! ## Calls over a network -/

/-- Only what is outside the scheduler has changed, and how. -/
structure World.Outside (R : Network → Network → Prop) (w w' : World Network) : Prop where
  scheduler : w'.scheduler = w.scheduler
  topology : w'.topology = w.topology
  outside : R w.outside w'.outside

/-- A request has come to where it was sent, and its answer back. What executors do of their own accord may
come before and after it. -/
def Network.Asked {α : Type} (read : Response → Except RpcError α) (l : Location) (r : Request)
    (w : World Network) (x : Except RpcError α × World Network) : Prop :=
  ∃ n n', w.outside.Works n ∧ (n.call l r).2.Works n' ∧
    x = ((n.call l r).1.bind read, { w with outside := n' })

/-- Every call is one over the network, and nobody else makes any. -/
structure Client.Serves (c : Client (World Network)) : Prop where
  perform : ∀ phase l i w,
    Network.Asked Response.toAck l (Network.phaseRequest i phase) w (c.perform phase l i w)
  abort : ∀ l task w, Network.Asked Response.toAck l (.abort task) w (c.abort l task w)
  status : ∀ l w, Network.Asked Response.toStatus l .status w (c.status l w)
  results : ∀ l task w, Network.Asked Response.toResults l (.fetchResults task) w (c.results l task w)

theorem Network.client_serves : Network.client.Serves :=
  have hasked {α : Type} (read : Response → Except RpcError α) (l : Location) (r : Request)
      (w : World Network) : Network.Asked read l r w (Network.ask read l r w) := ⟨_, _, .refl, .refl, rfl⟩
  ⟨fun _ _ _ _ => hasked .., fun _ _ _ => hasked .., fun _ _ => hasked .., fun _ _ _ => hasked ..⟩

open World (Outside)
open Network (Calms Frees Hires Hosts)

variable {w w' w'' : World Network} {l : Location} {task : TaskId} {hired : List Location}

theorem World.Outside.trans {R R' R'' : Network → Network → Prop} (h : Outside R w w')
    (h' : Outside R' w' w'')
    (hR : R w.outside w'.outside → R' w'.outside w''.outside → R'' w.outside w''.outside) :
    Outside R'' w w'' :=
  ⟨h'.scheduler.trans h.scheduler, h'.topology.trans h.topology, hR h.outside h'.outside⟩

namespace Network.Asked

variable {α : Type} {read : Response → Except RpcError α} {r : Request}
  {x : Except RpcError α × World Network}

theorem calms (h : Asked read l r w x) (hr : ∀ t, r ≠ .sendInstruction t) : Outside Calms w x.2 := by
  obtain ⟨n, n', hbefore, hafter, rfl⟩ := h
  exact ⟨rfl, rfl, (hbefore.calms.trans (calms_call l hr)).trans hafter.calms⟩

theorem frees (h : Asked read l (.abort task) w x) (hl : ∃ i, w.outside.Hosts l i) :
    Outside (Frees task [l]) w x.2 := by
  obtain ⟨n, n', hbefore, hafter, rfl⟩ := h
  obtain ⟨i, hl⟩ := hl
  have hcall := n.calms_call l (r := .abort task) fun t h => by cases h
  refine ⟨rfl, rfl, (hbefore.calms.trans hcall).trans hafter.calms, fun m hm j hj hwork => ?_⟩
  obtain rfl := List.mem_singleton.mp hm
  obtain ⟨hcalled, htask⟩ := (hafter.calms.slots j).work hwork
  exact htask ▸ task_of_aborted (hbefore.calms.places.hosts hj) hcalled

variable {t : Instruction} {y : Except RpcError Unit × World Network}

theorem hires (h : Asked Response.toAck l (.sendInstruction t) w' y) (hl : ∃ i, w.outside.Hosts l i)
    (hw : Outside (Hires t.task hired) w w') : Outside (Hires t.task (l :: hired)) w y.2 := by
  obtain ⟨n, n', hbefore, hafter, rfl⟩ := h
  obtain ⟨i, hl⟩ := hl
  exact ⟨hw.scheduler, hw.topology, ((hw.outside.calms hbefore.calms).call hl).calms hafter.calms⟩

/-- An executor that has not been called yet and refuses an instruction for its state has long been at work. -/
theorem refused (h : Asked Response.toAck l (.sendInstruction t) w' y) {i : Nat} (hl : w.outside.Hosts l i)
    (hw : Outside (Hires task hired) w w') (hnew : l ∉ hired) {state : ExecutorState}
    (hrefused : y.1 =
      .error (.remote (ExecutorError.notAllowed "send_instruction" (.state state)).message)) :
    (w.outside.slot i).AtWork := by
  obtain ⟨n, n', hbefore, _, rfl⟩ := h
  have hires := hw.outside.calms hbefore.calms
  rcases hires.slots i (atWork_of_refused (hires.places.hosts hl) hrefused) with
    ⟨hwork, _⟩ | ⟨⟨m, hm, hhosts⟩, _⟩
  · exact hwork
  -- a location is that of one executor
  · exact absurd (hhosts.unique hl ▸ hm) hnew

end Network.Asked

/-- Some executor hosted here was at work already. -/
def World.Busy (w : World Network) (l : Location) : Prop :=
  ∃ i, w.outside.Hosts l i ∧ (w.outside.slot i).AtWork

namespace Client.Serves

variable {c : Client (World Network)} (hc : c.Serves)

include hc

theorem dispatch (mode : DispatchMode) (order : Phase → List Nat) {nodes : List Assignment}
    (honce : (nodes.map (·.location)).Nodup) (hhosts : ∀ a ∈ nodes, ∃ i, w.outside.Hosts a.location i)
    (htask : ∀ a ∈ nodes, a.instruction.task = task) :
    ((c.dispatch mode order nodes w).1 = .ok () →
      Outside (Hires task (nodes.map (·.location))) w (c.dispatch mode order nodes w).2) ∧
    ∀ f, (c.dispatch mode order nodes w).1 = .error f →
      Outside (Hires task f.contacted) w (c.dispatch mode order nodes w).2 ∧
      f.contacted ⊆ nodes.map (·.location) ∧
      (f.phase = .sendInstruction → ∀ state, f.error =
          .remote (ExecutorError.notAllowed "send_instruction" (.state state)).message →
        f.location ∈ nodes.map (·.location) ∧ w.Busy f.location) := by
  refine Client.dispatch_carries (J := fun hired => Outside (Hires task hired) w)
    (Q := fun l e => ∀ state, e =
        .remote (ExecutorError.notAllowed "send_instruction" (.state state)).message →
      l ∈ nodes.map (·.location) ∧ w.Busy l)
    (fun phase hphase a ha hired w' hw => ?_) honce
    (fun hired more w' hsub hw => ⟨hw.scheduler, hw.topology, hw.outside.mono hsub⟩)
    (fun a ha hired w' hnew hw => ?_) mode order ⟨rfl, rfl, .refl ..⟩
  · refine hw.trans ((hc.perform phase a.location a.instruction w').calms ?_) Hires.calms
    cases phase with
    | sendInstruction => exact absurd rfl hphase
    | setupWriters | setupReaders | run => exact fun t h => by cases h
  · have hasked := hc.perform .sendInstruction a.location a.instruction w'
    obtain ⟨i, hi⟩ := hhosts a ha
    refine ⟨?_, fun e he state hstate =>
      ⟨List.mem_map_of_mem ha, i, hi, hasked.refused hi hw hnew (hstate ▸ he)⟩⟩
    obtain rfl := htask a ha
    exact hasked.hires (hhosts a ha) hw

theorem abortAll (task : TaskId) {ls : List Location} (hhosts : ∀ l ∈ ls, ∃ i, w.outside.Hosts l i) :
    Outside (Frees task ls) w (World.abortAll c task ls w) := by
  induction ls generalizing w with
  | nil => exact ⟨rfl, rfl, .refl _, nofun⟩
  | cons l ls ih =>
    obtain ⟨hl, hls⟩ := List.forall_mem_cons.mp hhosts
    have hfirst := (hc.abort l task w).frees hl
    have hrest := ih fun m hm => (hls m hm).imp fun i => hfirst.outside.calms.places.hosts
    exact hfirst.trans hrest Frees.trans

theorem askAll (task : TaskId) (verdict : Verdict) (ls : List Location) (w : World Network) :
    Outside Calms w (World.askAll c task verdict ls w).2 := by
  induction ls generalizing verdict w with
  | nil => exact ⟨rfl, rfl, .refl _⟩
  | cons l ls ih =>
    have hcall := (hc.status l w).calms fun t h => by cases h
    rw [World.askAll]
    rcases heq : c.status l w with ⟨answer, w'⟩
    rw [heq] at hcall
    simp only
    split
    · exact hcall.trans (ih _ _) Calms.trans
    · exact hcall.trans (ih _ _) Calms.trans
    · exact hcall

theorem judge (r : Running) (w : World Network) : Outside Calms w (World.judge c r w).2.2 := by
  have hask := hc.askAll r.task .done r.executors w
  rw [World.judge]
  split
  · rename_i w' root heq _
    rw [heq] at hask
    have hcall := (hc.results root r.task w').calms fun t h => by cases h
    split
    all_goals
      rename_i hresults
      rw [hresults] at hcall
      exact hask.trans hcall Calms.trans
  · rename_i heq _
    rwa [heq] at hask

end Client.Serves

/-! ## Who is at work for whom -/

namespace Network

variable {n n' : Network} {P P' : String → TaskId → Prop}

/-- Whoever is at work is so for a task that it may be at work for. -/
def Covered (P : String → TaskId → Prop) (n : Network) : Prop :=
  ∀ v ∈ n.workers, v.slot.AtWork → ∃ task, v.slot.task = some task ∧ P v.location.name task

theorem Covered.mono (h : n.Covered P) (hP : ∀ name task, P name task → P' name task) : n.Covered P' := by
  intro v hv hwork
  obtain ⟨task, htask, hv⟩ := h v hv hwork
  exact ⟨task, htask, hP _ _ hv⟩

theorem SamePlaces.names (h : n.SamePlaces n') :
    n'.workers.map (·.location.name) = n.workers.map (·.location.name) := by
  have hnames := congrArg (List.map (·.name)) h.workers
  rwa [List.map_map, List.map_map] at hnames

theorem SamePlaces.exists_worker (h : n.SamePlaces n') {v' : Worker} (hv' : v' ∈ n'.workers) :
    ∃ i v, n.workers[i]? = some v ∧ v.location = v'.location ∧ n.slot i = v.slot ∧
      n'.slot i = v'.slot := by
  obtain ⟨i, hi⟩ := List.getElem?_of_mem hv'
  have hlocation : (n.workers.map (·.location))[i]? = some v'.location := by
    rw [← h.workers, List.getElem?_map, hi]
    rfl
  rw [List.getElem?_map] at hlocation
  obtain ⟨v, hv, heq⟩ := Option.map_eq_some_iff.mp hlocation
  exact ⟨i, v, hv, heq, by rw [slot, hv]; rfl, by rw [slot, hi]; rfl⟩

theorem Covered.hires (h : n.Covered P) (hn : n.Hires task hired n') :
    n'.Covered fun name t => P name t ∨ t = task ∧ name ∈ hired.map (·.name) := by
  intro v' hv' hwork
  obtain ⟨i, v, hv, hlocation, hslot, hslot'⟩ := hn.places.exists_worker hv'
  rcases hn.slots i (hslot' ▸ hwork) with ⟨hbefore, hsame⟩ | ⟨⟨l, hl, hhosts⟩, htask⟩
  · rw [hslot, hslot'] at hsame
    obtain ⟨t, ht, hP⟩ := h v (List.mem_of_getElem? hv) (hslot ▸ hbefore)
    exact ⟨t, hsame.trans ht, .inl (hlocation ▸ hP)⟩
  · obtain ⟨u, hu, rfl⟩ := hhosts.worker
    obtain rfl := Option.some.inj (hu.symm.trans hv)
    exact ⟨task, hslot' ▸ htask, .inr ⟨rfl, hlocation ▸ List.mem_map_of_mem hl⟩⟩

theorem Covered.calms (h : n.Covered P) (hn : n.Calms n') : n'.Covered P := by
  have hhires := h.hires ((Hires.refl n 0).calms hn)
  exact hhires.mono fun name t ht => ht.resolve_right fun hno => nomatch hno.2

theorem Hosts.index_eq (hnames : (n.workers.map (·.location.name)).Nodup) {i j : Nat} {v : Worker}
    (hl : n.Hosts l i) (hv : n.workers[j]? = some v) (hname : v.location.name = l.name) : j = i := by
  obtain ⟨u, hu, rfl⟩ := hl.worker
  exact index_eq_of_map hnames hv hu hname

theorem Covered.frees (h : n.Covered P) (hnames : (n.workers.map (·.location.name)).Nodup)
    (hn : n.Frees task hired n') (hhosts : ∀ l ∈ hired, ∃ i, n.Hosts l i) :
    n'.Covered fun name t => P name t ∧ ¬(t = task ∧ name ∈ hired.map (·.name)) := by
  intro v' hv' hwork
  obtain ⟨i, v, hv, hlocation, hslot, hslot'⟩ := hn.calms.places.exists_worker hv'
  obtain ⟨hbefore, hsame⟩ := (hn.calms.slots i).work (hslot' ▸ hwork)
  rw [hslot, hslot'] at hsame
  obtain ⟨t, ht, hP⟩ := h v (List.mem_of_getElem? hv) (hslot ▸ hbefore)
  refine ⟨t, hsame.trans ht, hlocation ▸ hP, ?_⟩
  rintro ⟨rfl, hname⟩
  obtain ⟨l, hl, hname⟩ := List.mem_map.mp hname
  obtain ⟨j, hj⟩ := hhosts l hl
  obtain rfl := hj.index_eq hnames hv (by rw [hlocation, hname])
  exact hn.slots l hl i hj (hslot' ▸ hwork) (by rw [hslot', hsame, ht])

end Network
end QueryCluster
