import QueryCluster.Proofs.Scheduler.Invariant

/-!
# A record of the rows that were answered

Rows come to the scheduler from two sides: a poll fetches those of a task that is done, and so does who asks
for them. Both wait for an executor without the lock. Beside the sections under the lock the record holds what
executors have answered and what has been given out, so that it can be said where rows came from. Here
executors may be taken back from any task, also from one that runs.
-/
namespace QueryCluster

/-- Rows of a task as an executor has given them. -/
structure Answer where
  executor : Location
  task : TaskId
  rows : Split

structure Record where
  /-- The tasks whose rows were to be fetched, and where. -/
  located : List (TaskId × Location) := []
  answers : List Answer := []
  /-- The rows that were given to those who asked the scheduler for them. -/
  returned : List (TaskId × Split) := []

/-- Nothing is ever struck out. -/
structure Record.Grows (g g' : Record) : Prop where
  located : g.located ⊆ g'.located
  answers : g.answers ⊆ g'.answers
  returned : g.returned ⊆ g'.returned

/-- A section under the lock, or an answer of an executor, with what is left of its call before and after
it. A poll files a task as done only with rows that the executor of its root has answered, or without any. -/
inductive Entry (config : Config) (topology : Topology) :
    Option Underway → SchedulerState → Record → Option Underway → SchedulerState → Record → Prop
  | locked {before after : Option Underway} {s s' : SchedulerState} {g : Record}
      (h : Locked config topology before s after s') (hkept : s'.results = s.results) :
      Entry config topology before s g after s' g
  | release {s : SchedulerState} {g : Record} (id : TaskId) :
      Entry config topology none s g none (s.release id).2 g
  | answer {s : SchedulerState} {g : Record} (a : Answer) :
      Entry config topology none s g none s { g with answers := a :: g.answers }
  | close {s s' : SchedulerState} {g : Record} {r : Running} {rest : List Running} {root : Location}
      {rows : Split} (hroot : r.root = some root) (hanswer : ⟨root, r.task, rows⟩ ∈ g.answers)
      (h : s.finish r.task true none (some rows) = .ok s') :
      Entry config topology (some (.poll (r :: rest))) s g (some (.poll rest)) s' g
  | locate {s : SchedulerState} {g : Record} {id : TaskId} {root : Location}
      (h : s.locateResults id = .ok (.inr root)) :
      Entry config topology none s g (some (.fetch id)) s { g with located := (id, root) :: g.located }
  | store {s : SchedulerState} {g : Record} {id : TaskId} {root : Location} {rows : Split}
      (hlocated : (id, root) ∈ g.located) (hanswer : ⟨root, id, rows⟩ ∈ g.answers) :
      Entry config topology (some (.fetch id)) s g none (s.storeResults id rows)
        { g with returned := (id, rows) :: g.returned }
  | reread {s : SchedulerState} {g : Record} {id : TaskId} {rows : Split}
      (h : s.locateResults id = .ok (.inl rows)) :
      Entry config topology none s g none s { g with returned := (id, rows) :: g.returned }

structure Ledger where
  scheduler : SchedulerState := {}
  topology : Topology := []
  calls : List Underway := []
  record : Record := {}

namespace Ledger

/-- Some call goes on, or the topology changes. -/
inductive Step (config : Config) : Ledger → Ledger → Prop
  | entry {s s' : SchedulerState} {t : Topology} {before after : Option Underway} {g g' : Record}
      (front back : List Underway) (h : Entry config t before s g after s' g') :
      Step config ⟨s, t, front ++ before.toList ++ back, g⟩ ⟨s', t, front ++ after.toList ++ back, g'⟩
  | topology {s : SchedulerState} {t : Topology} {calls : List Underway} {g : Record} (t' : Topology) :
      Step config ⟨s, t, calls, g⟩ ⟨s, t', calls, g⟩

abbrev Steps (config : Config) : Ledger → Ledger → Prop := Relation.ReflTransGen (Step config)

/-- Nothing has been asked of the scheduler yet. -/
def start (topology : Topology) : Ledger := { topology }

end Ledger

theorem Record.Grows.refl (g : Record) : g.Grows g :=
  ⟨List.Subset.refl _, List.Subset.refl _, List.Subset.refl _⟩

theorem Record.Grows.trans {g g' g'' : Record} (h : g.Grows g') (h' : g'.Grows g'') : g.Grows g'' :=
  ⟨List.Subset.trans h.located h'.located, List.Subset.trans h.answers h'.answers,
    List.Subset.trans h.returned h'.returned⟩

theorem Entry.grows {config : Config} {topology : Topology} {before after : Option Underway}
    {s s' : SchedulerState} {g g' : Record} (h : Entry config topology before s g after s' g') :
    g.Grows g' := by
  cases h with
  | locked | release | close => exact .refl g
  | answer => exact ⟨List.Subset.refl _, List.subset_cons_self .., List.Subset.refl _⟩
  | locate => exact ⟨List.subset_cons_self .., List.Subset.refl _, List.Subset.refl _⟩
  | store | reread => exact ⟨List.Subset.refl _, List.Subset.refl _, List.subset_cons_self ..⟩

theorem Ledger.Steps.grows {config : Config} {x y : Ledger} (h : Ledger.Steps config x y) :
    x.record.Grows y.record := by
  induction h with
  | refl => exact .refl _
  | tail _ hstep ih =>
    refine ih.trans ?_
    cases hstep with
    | entry _ _ h => exact h.grows
    | topology => exact .refl _

/-! ## The functions of the scheduler as runs -/

namespace World

variable {κ : Type} {config : Config} {w w' w'' : World κ} {before between after : Option Underway}
  {g : Record} {P Q : Record → Prop}

def ledger (w : World κ) (calls : List Underway) (g : Record) : Ledger :=
  ⟨w.scheduler, w.topology, calls, g⟩

/-- Steps bring a call from one stage to another, and a world and its record to others, whoever else is at
work. The record has some property in the end. -/
def Leads (config : Config) (before after : Option Underway) (w : World κ) (g : Record) (w' : World κ)
    (P : Record → Prop) : Prop :=
  ∀ front back, ∃ others g', Ledger.Steps config (w.ledger (front ++ before.toList ++ back) g)
    (w'.ledger (front ++ others ++ after.toList ++ back) g') ∧ P g'

theorem Leads.refl (h : P g) : Leads config before before w g w P := fun front back =>
  ⟨[], g, by rw [List.append_nil], h⟩

theorem Leads.trans (h : Leads config before between w g w' P)
    (h' : ∀ g', g.Grows g' → P g' → Leads config between after w' g' w'' Q) :
    Leads config before after w g w'' Q := by
  intro front back
  obtain ⟨others, g', hsteps, hP⟩ := h front back
  obtain ⟨others', g'', hsteps', hQ⟩ := h' g' hsteps.grows hP (front ++ others) back
  refine ⟨others ++ others', g'', ?_, hQ⟩
  rw [← List.append_assoc front]
  exact hsteps.trans hsteps'

theorem Leads.imp (h : Leads config before after w g w' P) (hPQ : ∀ g', P g' → Q g') :
    Leads config before after w g w' Q := fun front back =>
  let ⟨others, g', hsteps, hP⟩ := h front back
  ⟨others, g', hsteps, hPQ g' hP⟩

/-- Others are at work while a call waits for them. -/
theorem Leads.waiting (h : Leads config none none w g w' P) (call : Option Underway) :
    Leads config call call w g w' P := by
  intro front back
  obtain ⟨others, g', hsteps, hP⟩ := h front (call.toList ++ back)
  refine ⟨others, g', ?_, hP⟩
  simpa only [Option.toList_none, List.append_nil, List.append_assoc] using hsteps

theorem Leads.entry {s : SchedulerState} {g' : Record}
    (h : Entry config w.topology before w.scheduler g after s g') (hP : P g') :
    Leads config before after w g (w.onScheduler s) P := fun front back => by
  refine ⟨[], g', ?_, hP⟩
  rw [List.append_nil]
  exact .single (.entry front back h)

theorem Leads.locked {s : SchedulerState} (h : Locked config w.topology before w.scheduler after s)
    (hkept : s.results = w.scheduler.results) :
    Leads config before after w g (w.onScheduler s) fun _ => True :=
  .entry (.locked h hkept) trivial

end World

/-- Whatever a client does to the scheduler is done by calls of others, and the rows that it answers are on
record. -/
structure Client.Recounts {κ : Type} (config : Config) (c : Client (World κ)) : Prop where
  perform : ∀ phase l i w g,
    World.Leads config none none w g (c.perform phase l i w).2 fun _ => True
  abort : ∀ l task w g, World.Leads config none none w g (c.abort l task w).2 fun _ => True
  status : ∀ l w g, World.Leads config none none w g (c.status l w).2 fun _ => True
  results : ∀ l task w g, World.Leads config none none w g (c.results l task w).2 fun g' =>
    ∀ rows, (c.results l task w).1 = .ok rows → ⟨l, task, rows⟩ ∈ g'.answers

theorem Client.Recounts.calls {κ : Type} {config : Config} {c : Client (World κ)} {w w' : World κ}
    (hc : c.Recounts config) (h : c.Calls w w') (g : Record) :
    World.Leads config none none w g w' fun _ => True := by
  induction h with
  | refl => exact .refl trivial
  | tail _ hcall ih =>
    refine ih.trans fun g' _ _ => ?_
    cases hcall with
    | perform => exact hc.perform _ _ _ _ g'
    | abort => exact hc.abort _ _ _ g'
    | status => exact hc.status _ _ g'
    | results => exact (hc.results _ _ _ g').imp fun _ _ => trivial

namespace SchedulerState

variable (s : SchedulerState) (id : TaskId)

theorem results_startTask (config : Config) (free : List Location) :
    (s.startTask config free).2.results = s.results := by
  have hattempt := s.startTask_attempt config free
  generalize Underway.ofStart (s.startTask config free).1 = call at hattempt
  generalize (s.startTask config free).2 = s' at hattempt
  cases hattempt <;> rfl

theorem results_enqueue (task : Task) (compiled : Except PlanError (Plan × Nat)) :
    (s.enqueue task compiled).2.results = s.results := by
  cases compiled <;> rfl

theorem results_failDispatch (fault : TaskFault) (free : Bool) :
    (s.failDispatch id fault free).results = s.results := by
  rw [failDispatch]
  cases s.doings.take? id <;> cases free <;> rfl

theorem results_finish {s' : SchedulerState} {success : Bool} {error : Option TaskFault}
    (h : s.finish id success error none = .ok s') : s'.results = s.results := by
  obtain ⟨_, _, _, rfl⟩ := finish_eq_ok h
  rfl

end SchedulerState

open SchedulerState

section Calls

variable {κ : Type} {config : Config} {c : Client (World κ)}

namespace World

theorem addTask_leads (w : World κ) (g : Record) (time : Nat) (query catalog schema : String)
    (priority : Int) (h : w.scheduler.nextId + 1 ≠ 0) :
    Leads config none none w g (w.addTask time query catalog schema priority).2 fun _ => True :=
  (Leads.locked (.issue query catalog schema priority time h) rfl).trans fun _ _ _ =>
    .locked (.enqueue _ (compile query catalog schema)) (results_enqueue ..)

theorem runTask_leads (hc : c.Recounts config) (order : Phase → List Nat) (w : World κ) (g : Record) :
    Leads config none none w g (runTask c config order w).2 fun _ => True := by
  have hstart : Leads config none (Underway.ofStart (w.scheduler.startTask config w.free).1) w g
      (w.onScheduler (w.scheduler.startTask config w.free).2) fun _ => True :=
    .locked .start (results_startTask ..)
  rw [runTask]
  split
  · rename_i heq
    rwa [heq] at hstart
  · rename_i heq
    rwa [heq] at hstart
  · rename_i start s heq
    rw [heq] at hstart
    have hdispatch := hstart.trans fun g' _ _ => (hc.calls (c.dispatch_calls config.dispatchMode order
      start.nodes (w.onScheduler s)) g').waiting (some (.dispatch start.task))
    split
    · rename_i hok
      rw [hok] at hdispatch
      exact hdispatch.trans fun _ _ _ => .locked (.dispatched start.task) rfl
    · rename_i f w' hfail
      rw [hfail] at hdispatch
      have haborts : ∀ g, Leads config (some (.dispatch start.task)) (some (.dispatch start.task)) w' g
          (if config.abortOnDispatchFailure then abortAll c start.task f.contacted w' else w')
          fun _ => True := by
        intro g
        split
        · exact (hc.calls (abortAll_calls c start.task f.contacted w') g).waiting _
        · exact .refl trivial
      exact (hdispatch.trans fun g' _ _ => haborts g').trans fun _ _ _ =>
        .locked (.undispatched start.task _) (results_failDispatch ..)

theorem finishTask_leads (w : World κ) (g : Record) (task : TaskId) (success : Bool)
    (message : Option String) :
    Leads config none none w g (w.finishTask task success message).2 fun _ => True := by
  rw [finishTask]
  split
  · rename_i h
    exact .locked (.finish h) (results_finish _ _ h)
  · exact .refl trivial

theorem releaseExecutors_leads (w : World κ) (g : Record) (task : TaskId) :
    Leads config none none w g (w.releaseExecutors task).2 fun _ => True :=
  .entry (.release task) trivial

/-- Rows that a task is judged to be done with have been answered by the executor of its root. -/
theorem judge_leads (hc : c.Recounts config) (r : Running) (w : World κ) (g : Record) :
    Leads config none none w g (judge c r w).2.2 fun g' => ∀ rows, (judge c r w).2.1 = some rows →
      (judge c r w).1 = .done ∧ ∃ root, r.root = some root ∧ ⟨root, r.task, rows⟩ ∈ g'.answers := by
  have hask := hc.calls (askAll_calls c r.task .done r.executors w) g
  rw [judge]
  split
  · rename_i w' root heq hroot
    rw [heq] at hask
    refine hask.trans fun g' _ _ => ?_
    have hcall := hc.results root r.task w' g'
    split
    · rename_i rows w'' hresults
      rw [hresults] at hcall
      exact hcall.imp fun g'' hanswers rows' h => ⟨rfl, root, hroot, hanswers rows' (by cases h; rfl)⟩
    · rename_i hresults
      rw [hresults] at hcall
      exact hcall.imp fun _ _ _ h => by cases h
  · rename_i heq _
    rw [heq] at hask
    exact hask.imp fun _ _ _ h => by cases h

theorem pollTask_leads (hc : c.Recounts config) (r : Running) (rest : List Running) (w : World κ)
    (g : Record) : Leads config (some (.poll (r :: rest))) (some (.poll rest)) w g (pollTask c r w).2
      fun _ => True := by
  have hjudge := (judge_leads hc r w g).waiting (some (.poll (r :: rest)))
  have habort (w : World κ) (g : Record) :=
    (hc.calls (abortAll_calls c r.task r.executors w) g).waiting (some (.poll (r :: rest)))
  rw [pollTask]
  rcases heq : judge c r w with ⟨verdict, rows, w'⟩
  rw [heq] at hjudge
  -- the section that ends the task, if it is still running then
  have hclose : ∀ success error g (w : World κ) s, w.scheduler.finish r.task success error rows = .ok s →
      (∀ rows', rows = some rows' → success = true ∧ error = none ∧
        ∃ root, r.root = some root ∧ ⟨root, r.task, rows'⟩ ∈ g.answers) →
      Leads config (some (.poll (r :: rest))) (some (.poll rest)) w g (w.onScheduler s) fun _ => True := by
    intro success error g w s hfinish hrows
    cases rows with
    | none => exact .locked (.close hfinish) (results_finish _ _ hfinish)
    | some rows =>
      obtain ⟨rfl, rfl, root, hroot, hanswer⟩ := hrows rows rfl
      exact .entry (.close hroot hanswer hfinish) trivial
  cases verdict with
  | running => exact hjudge.trans fun _ _ _ => .locked (.pass r rest) rfl
  | done =>
    refine hjudge.trans fun g' _ hrows => (habort w' g').trans fun g'' hgrows _ => ?_
    dsimp only
    split
    · rename_i hfinish
      refine hclose true none g'' _ _ hfinish fun rows' h => ?_
      obtain ⟨_, root, hroot, hanswer⟩ := hrows rows' h
      exact ⟨rfl, rfl, root, hroot, hgrows.answers hanswer⟩
    · exact .locked (.pass r rest) rfl
  | failed fault =>
    refine hjudge.trans fun g' _ hrows => (habort w' g').trans fun g'' _ _ => ?_
    dsimp only
    split
    · rename_i hfinish
      refine hclose false (some fault) g'' _ _ hfinish fun rows' h => ?_
      cases (hrows rows' h).1
    · exact .locked (.pass r rest) rfl

theorem pollRunning_leads (hc : c.Recounts config) (w : World κ) (g : Record) :
    Leads config none none w g (pollRunning c w).2 fun _ => True := by
  have heach : ∀ rs (w : World κ) g,
      Leads config (some (.poll rs)) none w g (pollEach c rs w).2 fun _ => True := by
    intro rs
    induction rs with
    | nil => exact fun w g => .locked .polled rfl
    | cons r rs ih => exact fun w g => (pollTask_leads hc r rs w g).trans fun g' _ _ => ih _ g'
  have hpoll : Leads config none (some (.poll w.scheduler.running)) w g w fun _ => True :=
    .locked .poll rfl
  exact hpoll.trans fun g' _ _ => heach _ w g'

end World

end Calls

end QueryCluster
